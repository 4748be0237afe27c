import Prometeus.Sketches.Throttle

/-! # The uploads of `servidorDHT11.ino`

A counter that goes round from 2 to 21 stands for the sensor. Each time the throttle lets the sketch through, the
two readings of the next value go out, the temperature first.
-/

namespace Sketches

open Arduino Script Sketch Rounding

/-- The throttle notes a send exactly when it lets the sketch through. -/
theorem Throttle.wp_pass_sends (allowed : Bool) (timerDelay : UInt32) (b : Board Throttle) :
    wp (pass allowed timerDelay)
      (fun passed t => t.mem.sends.length = b.mem.sends.length + if passed then 1 else 0)
      (fun t => t.mem.sends.length = b.mem.sends.length) b := by
  rw [pass, wp_call_bind]
  refine ⟨rfl, fun ready => ?_⟩
  rw [wp_ite]
  refine ⟨fun _ => ?_, fun _ => wp_pure.mpr rfl⟩
  rw [wp_millis_bind]
  refine ⟨rfl, fun elapsed => ?_⟩
  rw [wp_load_bind, wp_ite]
  refine ⟨fun _ => ?_, fun _ => wp_pure.mpr rfl⟩
  rw [stamp, bind_assoc, wp_millis_bind]
  refine ⟨rfl, fun later => ?_⟩
  rw [bind_assoc, wp_read_bind, wp_modify_bind, wp_pure]
  simp

namespace ServidorDHT11

/-- The counter after some uploads. -/
def turn : ℕ → ℕ
  | 0 => 1
  | n + 1 => (if 20 < turn n then 1 else turn n) + 1

/-- The two writes of an upload. -/
def pair (uid : String) (k : ℕ) : List (String × ℚ) :=
  [(tempPath uid, (reading k).1), (humPath uid, (reading k).2)]

/-- The writes of the first `n` uploads. -/
def history (uid : String) (n : ℕ) : List (String × ℚ) :=
  (List.range n).flatMap fun i => pair uid (turn (i + 1))

theorem history_succ (uid : String) (n : ℕ) :
    history uid (n + 1) = history uid n ++ pair uid (turn (n + 1)) := by
  simp [history, List.range_succ]

theorem turn_succ (n : ℕ) : turn (n + 1) = n % 20 + 2 := by
  induction n with
  | zero => rfl
  | succ n ih =>
      rw [turn, ih]
      split
      next => omega
      next => omega

theorem turn_le (n : ℕ) : turn n ≤ 21 := by
  cases n with
  | zero => decide
  | succ n =>
      rw [turn_succ]
      omega

theorem count_turn {g : Globals} {n : ℕ} (h : g.contador = turn n) :
    (count g).contador = turn (n + 1) ∧ (count g).temperatura = (reading (turn (n + 1))).1 ∧
      (count g).humedad = (reading (turn (n + 1))).2 := by
  have hnext : binary32 ((if 20 < g.contador then 1 else g.contador) + 1) = turn (n + 1) := by
    have hcast : (if 20 < g.contador then 1 else g.contador) + 1 = ((turn (n + 1) : ℕ) : ℚ) := by
      rw [turn, h]
      by_cases hround : 20 < turn n
      · rw [if_pos hround, if_pos (by exact_mod_cast hround)]
        norm_num
      · rw [if_neg hround, if_neg (by exact_mod_cast hround)]
        push_cast
        rfl
    rw [hcast]
    exact binary32_natCast ((turn_le _).trans_lt (by decide))
  refine ⟨hnext, ?_, ?_⟩
  · rw [count, hnext]
    rfl
  · rw [count, hnext]
    rfl

/-- Before and after each call of `loop()`: every upload that has begun is complete. -/
structure Uploaded (uid : String) (b : Board Globals) : Prop where
  owner : b.mem.uid = uid
  contador : b.mem.contador = turn b.mem.throttle.sends.length
  writes : b.mem.writes = history uid b.mem.throttle.sends.length

/-- At every moment: of the upload that has begun last, any part may be missing. -/
structure Uploading (uid : String) (b : Board Globals) : Prop where
  earlier : history uid (b.mem.throttle.sends.length - 1) <+: b.mem.writes
  later : b.mem.writes <+: history uid b.mem.throttle.sends.length

variable {uid : String} {b : Board Globals}

theorem history_mono (uid : String) {m n : ℕ} (h : m ≤ n) : history uid m <+: history uid n := by
  induction h with
  | refl => exact List.prefix_refl _
  | step _ ih =>
      rw [history_succ]
      exact ih.trans (List.prefix_append _ _)

theorem Uploaded.uploading (h : Uploaded uid b) : Uploading uid b := by
  constructor
  · rw [h.writes]
    exact history_mono uid (Nat.sub_le _ _)
  · rw [h.writes]

theorem wp_sendFloat_iff {path : String} {value : ℚ} {Q : Unit → Board Globals → Prop}
    {C : Board Globals → Prop} :
    wp (sendFloat path value) Q C b ↔ C ⟨b.clock, { b.mem with writes := b.mem.writes ++ [(path, value)] }⟩ ∧
      ∀ answer : Answer, Q () ⟨b.clock + answer.elapsed,
        { b.mem with writes := b.mem.writes ++ [(path, value)] }⟩ := by
  simp only [sendFloat, wp_modify_bind, wp_call_bind, wp_pure]

/-- An upload, right after the throttle has noted it. -/
theorem wp_upload_history {n : ℕ} (hsends : b.mem.throttle.sends.length = n + 1) (howner : b.mem.uid = uid)
    (hcontador : b.mem.contador = turn n) (hwrites : b.mem.writes = history uid n) :
    wp upload (fun _ => Uploaded uid) (Uploading uid) b := by
  obtain ⟨hturn, htemperatura, hhumedad⟩ := count_turn hcontador
  have hpair : b.mem.writes ++ [(tempPath b.mem.uid, (count b.mem).temperatura)] ++
      [(humPath b.mem.uid, (count b.mem).humedad)] = history uid (n + 1) := by
    rw [history_succ, hwrites, htemperatura, hhumedad, howner, List.append_assoc]
    rfl
  rw [upload, wp_modify_bind, wp_load_bind]
  refine wp_seq (P := fun _ t => t.mem = { count b.mem with
    writes := b.mem.writes ++ [(tempPath b.mem.uid, (count b.mem).temperatura)] }) (D := Uploading uid)
    ?_ (fun _ h => h) ?_
  · rw [wp_sendFloat_iff]
    refine ⟨⟨?_, ?_⟩, fun answer => rfl⟩
    · change history uid (b.mem.throttle.sends.length - 1) <+: b.mem.writes ++ _
      rw [hsends, Nat.add_sub_cancel, ← hwrites]
      exact List.prefix_append _ _
    · change b.mem.writes ++ _ <+: history uid b.mem.throttle.sends.length
      rw [hsends, ← hpair]
      exact List.prefix_append _ _
  · intro _ b₁ hb₁
    have hdone : ∀ clock, Uploaded uid ⟨clock, { b₁.mem with
        writes := b₁.mem.writes ++ [(humPath (count b.mem).uid, (count b.mem).humedad)] }⟩ := by
      intro clock
      constructor
      · rw [hb₁]
        exact howner
      · rw [hb₁]
        change (count b.mem).contador = turn b.mem.throttle.sends.length
        rw [hsends, hturn]
      · rw [hb₁]
        change b.mem.writes ++ _ ++ _ = history uid b.mem.throttle.sends.length
        rw [hsends]
        exact hpair
    rw [wp_sendFloat_iff]
    exact ⟨(hdone _).uploading, fun answer => hdone _⟩

theorem wp_loop_history (h : Uploaded uid b) : wp loop (fun _ => Uploaded uid) (Uploading uid) b := by
  have hidle : ∀ (throttle : Throttle) (clock : ℕ),
      throttle.sends.length = b.mem.throttle.sends.length → Uploaded uid ⟨clock, { b.mem with throttle }⟩ := by
    intro throttle clock hsends
    refine ⟨h.owner, ?_, ?_⟩
    · rw [hsends]
      exact h.contador
    · rw [hsends]
      exact h.writes
  rw [loop]
  refine wp_seq (P := fun passed t => ∃ throttle : Throttle, t.mem = { b.mem with throttle } ∧
      throttle.sends.length = b.mem.throttle.sends.length + if passed then 1 else 0)
    (D := Uploading uid) (wp_within ?_) (fun _ ht => ht) ?_
  · apply wp_mono (Throttle.wp_pass_sends true timerDelay ⟨b.clock, b.mem.throttle⟩)
    · exact fun passed t ht => ⟨t.mem, rfl, ht⟩
    · exact fun t ht => (hidle t.mem t.clock ht).uploading
  · rintro passed ⟨clock, mem⟩ ⟨throttle, rfl, hsends⟩
    rw [wp_ite]
    constructor
    · rintro rfl
      exact wp_upload_history hsends h.owner h.contador h.writes
    · intro hclosed
      rw [if_neg hclosed] at hsends
      exact wp_pure.mpr (hidle throttle clock hsends)

theorem wp_run_history (uid : String) (n clock : ℕ) :
    wp (run uid n) (fun _ => Uploading uid) (Uploading uid) ⟨clock, {}⟩ := by
  have hstart : ∀ t : Board Globals, t.mem = {} → Uploading uid t := by
    rintro ⟨clock, mem⟩ rfl
    exact ⟨List.prefix_refl _, List.prefix_refl _⟩
  rw [run, setup, bind_assoc]
  refine wp_seq (wp_await (P := fun t => t.mem = {}) fun _ _ => rfl) hstart ?_
  intro _ b₁ hb₁
  rw [bind_assoc]
  refine wp_seq (wp_await (P := fun t => t.mem = {}) fun _ _ => hb₁) hstart ?_
  intro _ b₂ hb₂
  rw [wp_modify_bind, hb₂]
  apply wp_mono (wp_iterate (Uploaded uid) ⟨rfl, rfl, rfl⟩ (fun _ ht => wp_loop_history ht) n)
  · exact fun _ _ ht => ht.uploading
  · exact fun _ ht => ht

end ServidorDHT11

end Sketches
