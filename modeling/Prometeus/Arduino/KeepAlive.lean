import Prometeus.Arduino.PubSubClientLaws
import Prometeus.Foundation.Promise

/-! # Silence on the link

`loop()` sends a ping after 15 seconds, and ends the session when after another 15 seconds it is still
unanswered. So a session does not outlive its broker for long, whatever the sketch does between the calls.
-/

namespace Arduino

open Script Sketch Mqtt

namespace Sketch

variable {μ α : Type} {P : Answer → Prop} {Q : α → Board μ → Prop} {b : Board μ}

@[simp] theorem wpOn_call_bind {f : Answer → Sketch μ α} : wpOn P (call >>= f) Q b ↔
    ∀ answer, P answer → wpOn P (f answer) Q ⟨b.clock + answer.elapsed, b.mem⟩ := by
  simp only [call, bind_assoc, wpOn_next_bind, wpOn_update_bind, pure_bind]

@[simp] theorem wpOn_load_bind {f : μ → Sketch μ α} :
    wpOn P (load >>= f) Q b ↔ wpOn P (f b.mem) Q b := by
  simp only [load, bind_assoc, wpOn_read_bind, pure_bind]

@[simp] theorem wpOn_modify_bind {g : μ → μ} {f : Unit → Sketch μ α} :
    wpOn P (modify g >>= f) Q b ↔ wpOn P (f ()) Q ⟨b.clock, g b.mem⟩ :=
  wpOn_update_bind

@[simp] theorem wpOn_millis_bind {f : UInt32 → Sketch μ α} : wpOn P (millis >>= f) Q b ↔
    ∀ answer, P answer → wpOn P (f (UInt32.ofNat (b.clock + answer.elapsed))) Q
      ⟨b.clock + answer.elapsed, b.mem⟩ := by
  simp only [millis, bind_assoc, wpOn_call_bind, wpOn_read_bind, pure_bind]

end Sketch

namespace PubSubClient

variable {δ α : Type} {P : Answer → Prop} {Q : α → Board (PubSubClient δ) → Prop}
variable {b b' b'' : Board (PubSubClient δ)}

@[simp] theorem wpOn_onLink_bind {f : Answer → Sketch (PubSubClient δ) α} : wpOn P (onLink >>= f) Q b ↔
    ∀ answer, P answer → wpOn P (f answer) Q
      ⟨b.clock + answer.elapsed, { b.mem with link := b.mem.link.after answer }⟩ := by
  simp only [onLink, bind_assoc, wpOn_call_bind, wpOn_modify_bind, pure_bind]

/-- No byte arrives, and no call takes longer than `e` milliseconds. -/
structure Silent (e : ℕ) (answer : Answer) : Prop where
  bytes : answer.bytes = []
  elapsed : answer.elapsed ≤ e

/-- At most `w` milliseconds have passed, and nothing has been heard. -/
structure Idles (w : ℕ) (b b' : Board (PubSubClient δ)) : Prop where
  earliest : b.clock ≤ b'.clock
  latest : b'.clock ≤ b.clock + w
  inbox : b.mem.link.inbox = [] → b'.mem.link.inbox = []
  lastInActivity : b'.mem.lastInActivity = b.mem.lastInActivity
  pingOutstanding : b'.mem.pingOutstanding = b.mem.pingOutstanding
  live : Live b' → Live b

theorem Idles.refl (b : Board (PubSubClient δ)) : Idles 0 b b := ⟨le_rfl, le_rfl, id, rfl, rfl, id⟩

theorem Idles.trans {w w' : ℕ} (h : Idles w b b') (h' : Idles w' b' b'') : Idles (w + w') b b'' where
  earliest := h.earliest.trans h'.earliest
  latest := by
    have hlate := h.latest
    have hlate' := h'.latest
    omega
  inbox := fun hinbox => h'.inbox (h.inbox hinbox)
  lastInActivity := h'.lastInActivity.trans h.lastInActivity
  pingOutstanding := h'.pingOutstanding.trans h.pingOutstanding
  live := fun hlive => h.live (h'.live hlive)

variable {e : ℕ}

theorem idles_after {answer : Answer} (h : Silent e answer) :
    Idles e b ⟨b.clock + answer.elapsed, { b.mem with link := b.mem.link.after answer }⟩ := by
  refine ⟨Nat.le_add_right _ _, Nat.add_le_add_left h.elapsed _, fun hinbox => ?_, rfl, rfl, ?_⟩
  · simp [Link.after, hinbox, h.bytes]
  · rintro ⟨hup, hstate⟩
    rw [after_up, Bool.and_eq_true] at hup
    exact ⟨hup.1, hstate⟩

theorem idles_millis {answer : Answer} (h : Silent e answer) :
    Idles e b ⟨b.clock + answer.elapsed, b.mem⟩ :=
  ⟨Nat.le_add_right _ _, Nat.add_le_add_left h.elapsed _, id, rfl, rfl, id⟩

theorem wpOn_connected : wpOn (Silent e) connected (fun rc b' => Idles e b b' ∧ (rc = true ↔ Live b')) b := by
  rw [connected, linkConnected, bind_assoc, wpOn_onLink_bind]
  intro answer hsilent
  have hidles : Idles e b _ := idles_after hsilent
  rw [bind_assoc, wpOn_load_bind, pure_bind, wpOn_load_bind, wpOn_ite]
  constructor
  · intro hup
    rw [wpOn_pure]
    refine ⟨hidles, ?_⟩
    rw [beq_iff_eq]
    exact ⟨fun hstate => ⟨hup, hstate⟩, fun hlive => hlive.2⟩
  · intro hdown
    by_cases hstate : b.mem.state = mqttConnected
    · rw [if_pos hstate, setState, stop, wpOn_modify_bind, wpOn_modify_bind, wpOn_pure]
      have hdead : ∀ clock, ¬ Live (δ := δ)
          ⟨clock, { b.mem with link := {}, state := mqttConnectionLost }⟩ :=
        fun clock hlive => absurd hlive.1 Bool.false_ne_true
      exact ⟨⟨hidles.earliest, hidles.latest, fun _ => rfl, rfl, rfl, fun hlive => absurd hlive (hdead _)⟩,
        fun hrc => absurd hrc Bool.false_ne_true, fun hlive => absurd hlive (hdead _)⟩
    · rw [if_neg hstate, wpOn_pure]
      exact ⟨hidles, fun hrc => absurd hrc Bool.false_ne_true, fun hlive => absurd hlive.2 hstate⟩

theorem wpOn_linkWrite (packet : Bytes) : wpOn (Silent e) (linkWrite packet) (fun _ => Idles e b) b := by
  rw [linkWrite, wpOn_onLink_bind]
  intro answer hsilent
  have hidles : Idles e b _ := idles_after hsilent
  rw [wpOn_load_bind, wpOn_ite]
  constructor
  · intro _
    rw [wpOn_modify_bind, wpOn_pure]
    exact ⟨hidles.earliest, hidles.latest, hidles.inbox, rfl, rfl, hidles.live⟩
  · intro _
    rw [wpOn_modify_bind, wpOn_pure]
    exact ⟨hidles.earliest, hidles.latest, hidles.inbox, rfl, rfl,
      fun hlive => absurd hlive.1 Bool.false_ne_true⟩

/-- What a check at the reading `t` leaves when it does not end the session: either something was heard
in time, or nothing was outstanding and a ping has been sent. -/
structure Checked (e : ℕ) (t : UInt32) (b b' : Board (PubSubClient δ)) : Prop where
  earliest : b.clock ≤ b'.clock
  latest : b'.clock ≤ b.clock + e
  inbox : b.mem.link.inbox = [] → b'.mem.link.inbox = []
  live : Live b' → Live b
  heard : ((t - b.mem.lastInActivity).toNat ≤ 15000 ∧ b'.mem.lastInActivity = b.mem.lastInActivity ∧
      b'.mem.pingOutstanding = b.mem.pingOutstanding) ∨
    b.mem.pingOutstanding = false ∧ b'.mem.lastInActivity = t ∧ b'.mem.pingOutstanding = true

theorem wpOn_keepAlive (t : UInt32) : wpOn (Silent e) (keepAlive t)
    (fun ok b' => (b.mem.link.inbox = [] → b'.mem.link.inbox = []) ∧
      if ok then Checked e t b b' else ¬ Live b') b := by
  rw [keepAlive, wpOn_load_bind, wpOn_ite]
  constructor
  · intro _
    rw [wpOn_ite]
    constructor
    · intro _
      rw [setState, stop, wpOn_modify_bind, wpOn_modify_bind, wpOn_pure]
      exact ⟨fun _ => rfl, fun hlive => absurd hlive.1 Bool.false_ne_true⟩
    · intro hping
      rw [onBuffer, wpOn_modify_bind]
      refine wpOn_seq (wpOn_linkWrite [0xC0, 0]) fun _ b' hidles => ?_
      rw [wpOn_modify_bind, wpOn_pure]
      refine ⟨hidles.inbox, hidles.earliest, hidles.latest, hidles.inbox, hidles.live, Or.inr ⟨?_, rfl, rfl⟩⟩
      exact Bool.eq_false_iff.mpr hping
  · intro hintime
    rw [wpOn_pure]
    refine ⟨id, le_rfl, Nat.le_add_right _ _, id, id, Or.inl ⟨?_, rfl, rfl⟩⟩
    have hheard := not_or.mp hintime |>.1
    rw [UInt32.lt_iff_toNat_lt, not_lt] at hheard
    exact hheard

/-- A call of `loop()` that leaves the session alive, with the check at the instant `t`. -/
structure Looped (e t : ℕ) (b b' : Board (PubSubClient δ)) : Prop where
  after : b.clock ≤ t
  soon : t ≤ b.clock + 2 * e
  before : t ≤ b'.clock
  latest : b'.clock ≤ t + 2 * e
  live : Live b
  heard : ((UInt32.ofNat t - b.mem.lastInActivity).toNat ≤ 15000 ∧
      b'.mem.lastInActivity = b.mem.lastInActivity ∧
      b'.mem.pingOutstanding = b.mem.pingOutstanding) ∨
    b.mem.pingOutstanding = false ∧ b'.mem.lastInActivity = UInt32.ofNat t ∧
      b'.mem.pingOutstanding = true

theorem wpOn_loop (hinbox : b.mem.link.inbox = []) : wpOn (Silent e) loop
    (fun _ b' => b'.mem.link.inbox = [] ∧ (Live b' → ∃ t, Looped e t b b')) b := by
  rw [loop]
  refine wpOn_seq wpOn_connected fun rc b₁ hconnected => ?_
  obtain ⟨hidles, hrc⟩ := hconnected
  rw [wpOn_ite]
  constructor
  · intro htrue
    have hlive := hrc.mp htrue
    rw [wpOn_millis_bind]
    intro answer hsilent
    refine wpOn_seq (wpOn_keepAlive _) fun ok b₂ hchecked => ?_
    obtain ⟨hempty, hok⟩ := hchecked
    have hinbox₂ := hempty (hidles.inbox hinbox)
    rw [wpOn_ite]
    constructor
    · intro hpassed
      rw [if_pos hpassed] at hok
      rw [available, bind_assoc, wpOn_onLink_bind]
      intro answer' hsilent'
      have hidles' : Idles e b₂ _ := idles_after hsilent'
      rw [bind_assoc, wpOn_load_bind, pure_bind, hidles'.inbox hinbox₂]
      rw [if_neg (by simp), wpOn_pure]
      refine ⟨hidles'.inbox hinbox₂, fun hlive' => ⟨b₁.clock + answer.elapsed, ?_⟩⟩
      have hearliest := hidles.earliest
      have hlatest := hidles.latest
      have hearliest₂ := hok.earliest
      have hlatest₂ := hok.latest
      have hearliest' := hidles'.earliest
      have hlatest' := hidles'.latest
      have helapsed := hsilent.elapsed
      dsimp only at hearliest₂ hlatest₂ hearliest' hlatest'
      refine ⟨by omega, by omega, by dsimp only; omega, by dsimp only; omega, hidles.live hlive, ?_⟩
      rw [← hidles.lastInActivity, ← hidles.pingOutstanding]
      exact hok.heard
    · intro hfailed
      rw [if_neg hfailed] at hok
      rw [wpOn_pure]
      exact ⟨hinbox₂, fun hlive' => absurd hlive' hok⟩
  · intro hfalse
    rw [wpOn_pure]
    exact ⟨hidles.inbox hinbox, fun hlive => absurd (hrc.mpr hlive) hfalse⟩

/-! ## Work between the calls -/

/-- What a sketch does between two calls of `loop()`, in at most `w` milliseconds. -/
def Punctual (e w : ℕ) (work : Sketch (PubSubClient δ) Unit) : Prop :=
  ∀ b, wpOn (Silent e) work (fun _ => Idles w b) b

theorem Punctual.bind {w w' : ℕ} {work work' : Sketch (PubSubClient δ) Unit} (h : Punctual e w work)
    (h' : Punctual e w' work') : Punctual e (w + w') (do work; work') := by
  intro b
  refine wpOn_seq (h b) fun _ b₁ hidles => ?_
  exact wpOn_mono (h' b₁) fun _ _ hidles' => hidles.trans hidles'

theorem punctual_delay (ms : ℕ) : Punctual e (e + ms) (delay ms : Sketch (PubSubClient δ) Unit) := by
  intro b
  rw [delay, wpOn_call_bind]
  intro answer hsilent
  have hpassed : Idles e b _ := idles_millis hsilent
  have hdelay : Idles ms ⟨b.clock + answer.elapsed, b.mem⟩ ⟨b.clock + answer.elapsed + ms, b.mem⟩ :=
    ⟨Nat.le_add_right _ _, le_rfl, id, rfl, rfl, id⟩
  have hupdate := wpOn_update_bind (P := Silent e) (f := pure)
    (Q := fun _ : Unit => Idles (e + ms) b) (s := (⟨b.clock + answer.elapsed, b.mem⟩ : Board (PubSubClient δ)))
    (g := fun b => { b with clock := b.clock + ms })
  rw [bind_pure, wpOn_pure] at hupdate
  exact hupdate.mpr (hpassed.trans hdelay)

theorem wpOn_write (header : UInt8) (length : ℕ) :
    wpOn (Silent e) (write header length) (fun _ => Idles (2 * e) b) b := by
  rw [write, onBuffer, wpOn_modify_bind, wpOn_load_bind]
  refine wpOn_seq (wpOn_linkWrite _) fun _ b₁ hidles => ?_
  rw [wpOn_millis_bind]
  intro answer hsilent
  rw [wpOn_modify_bind, wpOn_pure]
  have hearliest := hidles.earliest
  have hlatest := hidles.latest
  have helapsed := hsilent.elapsed
  exact ⟨hearliest.trans (Nat.le_add_right _ _), by dsimp only at *; omega, hidles.inbox,
    hidles.lastInActivity, hidles.pingOutstanding, hidles.live⟩

/-- A message goes out, or is turned away. -/
theorem wpOn_publishBytes (topic payload : Bytes) (retained : Bool) :
    wpOn (Silent e) (publishBytes topic payload retained) (fun _ => Idles (3 * e) b) b := by
  rw [publishBytes]
  refine wpOn_seq wpOn_connected fun rc b₁ hconnected => ?_
  have hidles := hconnected.1
  have hmore : ∀ b₂, Idles (2 * e) b₁ b₂ → Idles (3 * e) b b₂ := by
    intro b₂ hidles'
    have hboth := hidles.trans hidles'
    rwa [show e + 2 * e = 3 * e by omega] at hboth
  have hnone : Idles (3 * e) b b₁ := by
    apply hmore
    exact ⟨le_rfl, Nat.le_add_right _ _, id, rfl, rfl, id⟩
  rw [wpOn_ite]
  refine ⟨fun _ => ?_, fun _ => wpOn_pure.mpr hnone⟩
  rw [wpOn_ite]
  refine ⟨fun _ => wpOn_pure.mpr hnone, fun _ => ?_⟩
  rw [onBuffer, onBuffer, wpOn_modify_bind, wpOn_modify_bind]
  refine wpOn_mono (wpOn_write _ _) fun _ b₂ hidles' => hmore b₂ ?_
  exact ⟨hidles'.earliest, hidles'.latest, hidles'.inbox, hidles'.lastInActivity,
    hidles'.pingOutstanding, hidles'.live⟩

theorem punctual_publish (topic payload : Bytes) (retained : Bool) :
    Punctual e (3 * e) (do let _ ← publishBytes (δ := δ) topic payload retained) :=
  fun _ => wpOn_seq (wpOn_publishBytes topic payload retained) fun _ _ hidles => wpOn_pure.mpr hidles

/-! ## The end of a silent session -/

/-- The last packet came at the instant `s`. A live session has been checked at the instant `c`, and its
last activity is that packet or a ping. -/
structure Alert (e w s : ℕ) (b : Board (PubSubClient δ)) : Prop where
  inbox : b.mem.link.inbox = []
  checked : Live b → ∃ p c, b.mem.lastInActivity = UInt32.ofNat p ∧ p ≤ c ∧ c ≤ b.clock ∧
    c ≤ p + 15000 ∧ b.clock ≤ c + 2 * e ∧
      p ≤ s + if b.mem.pingOutstanding then 15000 + 4 * e + w else 0

variable {s w : ℕ}

theorem Alert.clock_le (h : Alert e w s b) (hlive : Live b) : b.clock ≤ s + 30000 + 6 * e + w := by
  obtain ⟨p, c, -, -, -, hchecked, hclock, hp⟩ := h.checked hlive
  split at hp <;> omega

theorem Alert.round {work : Sketch (PubSubClient δ) Unit} (hwork : Punctual e w work)
    (hgap : 15000 + 4 * e + w < 2 ^ 32) (h : Alert e w s b) :
    wpOn (Silent e) (do work; let _ ← loop) (fun _ => Alert e w s) b := by
  refine wpOn_seq (hwork b) fun _ b₁ hidles => ?_
  refine wpOn_seq (wpOn_loop (hidles.inbox h.inbox)) fun _ b₂ hlooped => ?_
  rw [wpOn_pure]
  refine ⟨hlooped.1, fun hlive => ?_⟩
  obtain ⟨t, hloop⟩ := hlooped.2 hlive
  obtain ⟨p, c, hlast, hpc, hcb, hchecked, hclock, hp⟩ := h.checked (hidles.live hloop.live)
  have hearliest := hidles.earliest
  have hlatest := hidles.latest
  have hafter := hloop.after
  have hsoon := hloop.soon
  have hheard := hloop.heard
  rw [hidles.lastInActivity, hidles.pingOutstanding, hlast] at hheard
  have htb := hloop.before
  -- Either the check was in time, or it has sent the ping that the next one waits for.
  rcases hheard with ⟨hintime, hlast', hping'⟩ | ⟨hping, hlast', hping'⟩
  · rw [toNat_millis_sub_of_lt (by omega) (by omega)] at hintime
    refine ⟨p, t, hlast', by omega, htb, by omega, hloop.latest, ?_⟩
    rw [hping']
    exact hp
  · refine ⟨t, t, hlast', le_rfl, htb, Nat.le_add_right _ _, hloop.latest, ?_⟩
    rw [hping, if_neg Bool.false_ne_true] at hp
    rw [hping', if_pos rfl]
    omega

/-- When nothing arrives any more, the session is over at the latest half a minute after the last packet,
but for the time that the calls and the sketch's own work take. -/
theorem notices_silence {work : Sketch (PubSubClient δ) Unit} (hwork : Punctual e w work)
    (hgap : 15000 + 4 * e + w < 2 ^ 32) (hinbox : b.mem.link.inbox = [])
    (hlast : b.mem.lastInActivity = UInt32.ofNat s) (hs : s ≤ b.clock)
    (hrecent : b.clock ≤ s + 15000) (n : ℕ) {answers : List Answer}
    (hsilent : ∀ answer ∈ answers, Silent e answer)
    (hresult : ((iterate (do work; let _ ← loop) n).run b answers).result = some ())
    (hlive : Live ((iterate (do work; let _ ← loop) n).run b answers).state) :
    ((iterate (do work; let _ ← loop) n).run b answers).state.clock ≤ s + 30000 + 6 * e + w := by
  have hstart : Alert e w s b := by
    refine ⟨hinbox, fun _ => ⟨s, b.clock, hlast, hs, le_rfl, hrecent, Nat.le_add_right _ _, ?_⟩⟩
    exact Nat.le_add_right _ _
  have hrun := wpOn_iterate (P := Silent e) (Alert e w s) hstart (fun _ h => h.round hwork hgap) n
  exact (hrun answers hsilent () hresult).clock_le hlive

/-- A session whose broker has just fallen silent. -/
def forsaken : Board (PubSubClient Unit) where
  clock := 0
  mem := { link := { up := true }, state := mqttConnected, buffer := fun _ => 0, dev := () }

/-- A message each second. -/
def chatting : Sketch (PubSubClient Unit) Unit := do
  let _ ← publishBytes (cstr "a") (cstr "b") false
  delay 1000

theorem notices_forsaken : Live ((iterate (do chatting; let _ ← loop) 31).run forsaken (calm 300)).state ∧
    ((iterate (do chatting; let _ ← loop) 31).run forsaken (calm 300)).state.clock ≤ 31000 ∧
    ¬ Live ((iterate (do chatting; let _ ← loop) 32).run forsaken (calm 300)).state := by
  have hlive : Live ((iterate (do chatting; let _ ← loop) 31).run forsaken (calm 300)).state :=
    ⟨by decide +kernel, by decide +kernel⟩
  have hwork : Punctual 0 1000 chatting := by
    have hboth : Punctual (δ := Unit) 0 1000 _ :=
      (punctual_publish (cstr "a") (cstr "b") false).bind (punctual_delay 1000)
    rw [bind_assoc] at hboth
    exact hboth
  have hsilent : ∀ answer ∈ calm 300, Silent 0 answer := by
    intro answer hanswer
    rw [List.eq_of_mem_replicate hanswer]
    exact ⟨rfl, le_rfl⟩
  refine ⟨hlive, ?_, ?_⟩
  · exact notices_silence (s := 0) hwork (by decide) rfl rfl le_rfl (by decide) 31 hsilent
      (by decide +kernel) hlive
  · rintro ⟨hup, -⟩
    exact absurd hup (by decide +kernel)

end PubSubClient

end Arduino
