import Mathlib.Data.List.Chain
import Prometeus.Arduino.Board
import Prometeus.Foundation.Rounding

/-! # Uploads to Firebase

`servidorDHT11.ino` and `ejemplo-servidordht11.ino` access their database at most once in `timerDelay`
milliseconds. The clock reading of the last access is kept in `sendDataPrevMillis`, where zero stands for
no access so far; `millis` itself is zero once in `2 ^ 32` milliseconds.
-/

namespace Sketches

open Arduino Script Sketch Rounding

/-- The variable of the throttle, and the instants at which it was assigned. -/
structure Throttle where
  sendDataPrevMillis : UInt32 := 0
  sends : List ℕ := []

namespace Throttle

/-- `millis() - sendDataPrevMillis > timerDelay || sendDataPrevMillis == 0` -/
def expired (t : Throttle) (timerDelay now : UInt32) : Bool :=
  timerDelay < now - t.sendDataPrevMillis || t.sendDataPrevMillis == 0

/-- `sendDataPrevMillis = millis()` -/
def stamp : Sketch Throttle Unit := do
  let now ← millis
  let b ← read
  modify fun t => { sendDataPrevMillis := now, sends := t.sends ++ [b.clock] }

/-- The guard of `loop()`, and the assignment behind it. `allowed` is what one of the sketches tests
besides `Firebase.ready()`. -/
def pass (allowed : Bool) (timerDelay : UInt32) : Sketch Throttle Bool := do
  let ready ← call
  if ready.ok && allowed then
    let now ← millis
    let t ← load
    if t.expired timerDelay now then
      stamp
      pure true
    else
      pure false
  else
    pure false

/-! ## Distances between sends -/

/-- Successive sends are more than `d` milliseconds apart. -/
def Spaced (d : ℕ) (sends : List ℕ) : Prop := sends.IsChain fun s s' => s + d < s'

/-- After a send at which `millis` is zero, none follows within `d` milliseconds. -/
def Lucky (d : ℕ) (sends : List ℕ) : Prop := sends.IsChain fun s s' => 2 ^ 32 ∣ s → s + d < s'

instance (d : ℕ) (sends : List ℕ) : Decidable (Spaced d sends) :=
  inferInstanceAs (Decidable (List.IsChain _ sends))

/-- What the guard enforces: a send at which `millis` is not zero keeps the next one away. -/
structure Kept (timerDelay : UInt32) (b : Board Throttle) : Prop where
  last : b.mem.sendDataPrevMillis = (b.mem.sends.getLast?.map UInt32.ofNat).getD 0
  past : ∀ s ∈ b.mem.sends.getLast?, s ≤ b.clock
  apart : b.mem.sends.IsChain fun s s' => ¬ 2 ^ 32 ∣ s → s + timerDelay.toNat < s'

theorem kept_start (timerDelay : UInt32) (clock : ℕ) : Kept timerDelay ⟨clock, {}⟩ :=
  ⟨rfl, by simp, .nil⟩

/-- Whether the sends of a run are far enough apart is decided where `millis` was zero. -/
theorem Kept.spaced_iff {timerDelay : UInt32} {b : Board Throttle} (h : Kept timerDelay b) :
    Spaced timerDelay.toNat b.mem.sends ↔ Lucky timerDelay.toNat b.mem.sends := by
  have hapart := List.isChain_iff_forall_rel_of_append_cons_cons.mp h.apart
  constructor
  · intro hspaced
    exact hspaced.imp fun s s' hlate _ => hlate
  · intro hlucky
    apply List.isChain_iff_forall_rel_of_append_cons_cons.mpr
    intro s s' before after hsends
    by_cases hzero : 2 ^ 32 ∣ s
    · exact List.isChain_iff_forall_rel_of_append_cons_cons.mp hlucky hsends hzero
    · exact hapart hsends hzero

variable {timerDelay : UInt32} {b : Board Throttle}

theorem Kept.spaced_of_not_dvd (h : Kept timerDelay b) (hsends : ∀ s ∈ b.mem.sends, ¬ 2 ^ 32 ∣ s) :
    Spaced timerDelay.toNat b.mem.sends :=
  h.apart.imp_of_mem_imp fun s _ hs _ hlate => hlate (hsends s hs)

theorem Kept.later (h : Kept timerDelay b) {clock : ℕ} (hclock : b.clock ≤ clock) :
    Kept timerDelay ⟨clock, b.mem⟩ :=
  ⟨h.last, fun s hs => (h.past s hs).trans hclock, h.apart⟩

/-- A send that the guard has let through. -/
theorem Kept.send (h : Kept timerDelay b) {now clock : ℕ} (hnow : b.clock ≤ now)
    (hclock : now ≤ clock) (hexpired : b.mem.expired timerDelay (UInt32.ofNat now) = true) :
    Kept timerDelay ⟨clock, ⟨UInt32.ofNat clock, b.mem.sends ++ [clock]⟩⟩ := by
  refine ⟨by simp, by simp, ?_⟩
  rw [List.isChain_append]
  refine ⟨h.apart, .singleton clock, fun s hs s' hs' hzero => ?_⟩
  obtain rfl : clock = s' := by simpa using hs'
  have hpast := (h.past s hs).trans hnow
  have hlast : b.mem.sendDataPrevMillis = UInt32.ofNat s := by
    rw [h.last, Option.mem_def.mp hs]
    rfl
  rw [expired, hlast, Bool.or_eq_true, decide_eq_true_iff, beq_iff_eq, UInt32.lt_iff_toNat_lt,
    toNat_millis_sub hpast, ← UInt32.toNat_inj, UInt32.toNat_ofNat'] at hexpired
  rcases hexpired with hlate | hsentinel
  · have hle := Nat.mod_le (now - s) (2 ^ 32)
    omega
  · exact absurd (Nat.dvd_of_mod_eq_zero hsentinel) hzero

theorem wp_pass (allowed : Bool) (h : Kept timerDelay b) :
    wp (pass allowed timerDelay) (fun _ => Kept timerDelay) (Kept timerDelay) b := by
  rw [pass, wp_call_bind]
  refine ⟨h, fun ready => ?_⟩
  rw [wp_ite]
  have hready := h.later (Nat.le_add_right b.clock ready.elapsed)
  refine ⟨fun _ => ?_, fun _ => wp_pure.mpr hready⟩
  rw [wp_millis_bind]
  refine ⟨hready, fun elapsed => ?_⟩
  have htested := hready.later (Nat.le_add_right _ elapsed)
  rw [wp_load_bind, wp_ite]
  refine ⟨fun hexpired => ?_, fun _ => wp_pure.mpr htested⟩
  rw [stamp, bind_assoc, wp_millis_bind]
  refine ⟨htested, fun later => ?_⟩
  rw [bind_assoc, wp_read_bind, wp_modify_bind, wp_pure]
  exact htested.send le_rfl (Nat.le_add_right _ _) hexpired

end Throttle

/-! ## `servidorDHT11.ino` -/

namespace ServidorDHT11

structure Globals where
  throttle : Throttle := {}
  uid : String := ""
  contador : ℚ := 1
  temperatura : ℚ := 0
  humedad : ℚ := 0
  /-- The path and the value of every write to the database. -/
  writes : List (String × ℚ) := []

def timerDelay : UInt32 := 5000

/-- Connect to the network, and wait until Firebase has given a user identifier. -/
def setup (uid : String) : Sketch Globals Unit := do
  await 500
  await 1000
  modify fun g => { g with uid }

def tempPath (uid : String) : String := "/UsersData/" ++ uid ++ "/temperatura"

def humPath (uid : String) : String := "/UsersData/" ++ uid ++ "/humedad"

/-- The counter that stands for the sensor, and the readings made of it. -/
def count (g : Globals) : Globals :=
  let contador := binary32 ((if 20 < g.contador then 1 else g.contador) + 1)
  { g with
    contador
    temperatura := binary32 (binary64 (contador * binary64 (1 / 10)))
    humedad := binary32 (binary64 (contador * binary64 (2 / 10))) }

def sendFloat (path : String) (value : ℚ) : Sketch Globals Unit := do
  modify fun g => { g with writes := g.writes ++ [(path, value)] }
  let _ ← call

def upload : Sketch Globals Unit := do
  modify count
  let g ← load
  sendFloat (tempPath g.uid) g.temperatura
  sendFloat (humPath g.uid) g.humedad

def loop : Sketch Globals Unit := do
  let passed ← within Globals.throttle (fun throttle g => { g with throttle })
    (Throttle.pass true timerDelay)
  if passed then
    upload

/-- `setup()` and then `n` times `loop()`. -/
def run (uid : String) (n : ℕ) : Sketch Globals Unit := do
  setup uid
  iterate loop n

/-- The readings that are uploaded for a value of the counter. -/
def reading (k : ℕ) : ℚ × ℚ :=
  (binary32 (binary64 (k * binary64 (1 / 10))), binary32 (binary64 (k * binary64 (2 / 10))))

/-- A write of a reading below the user's own node. -/
def Proper (uid : String) (entry : String × ℚ) : Prop :=
  ∃ k, 2 ≤ k ∧ k ≤ 21 ∧ (entry = (tempPath uid, (reading k).1) ∨ entry = (humPath uid, (reading k).2))

/-- What holds at every moment of a run. -/
structure Sound (b : Board Globals) : Prop where
  kept : Throttle.Kept timerDelay ⟨b.clock, b.mem.throttle⟩
  contador : ∃ k : ℕ, 1 ≤ k ∧ k ≤ 21 ∧ b.mem.contador = k
  writes : ∀ entry ∈ b.mem.writes, Proper b.mem.uid entry

variable {b : Board Globals}

theorem Sound.later (h : Sound b) {clock : ℕ} (hclock : b.clock ≤ clock) : Sound ⟨clock, b.mem⟩ :=
  ⟨h.kept.later hclock, h.contador, h.writes⟩

/-- The counter goes round from 2 to 21. -/
theorem Sound.count (h : Sound b) : Sound ⟨b.clock, count b.mem⟩ ∧ ∃ k, 2 ≤ k ∧ k ≤ 21 ∧
    (count b.mem).temperatura = (reading k).1 ∧ (count b.mem).humedad = (reading k).2 := by
  obtain ⟨k, hlow, hhigh, hk⟩ := h.contador
  have hcount : ∃ k' : ℕ, 2 ≤ k' ∧ k' ≤ 21 ∧ (ServidorDHT11.count b.mem).contador = k' := by
    by_cases hround : 20 < k
    · refine ⟨2, le_rfl, by decide, ?_⟩
      have htest : (20 : ℚ) < b.mem.contador := by
        rw [hk]
        exact_mod_cast hround
      have hsum : (1 : ℚ) + 1 = (2 : ℕ) := by norm_num
      rw [ServidorDHT11.count, if_pos htest, hsum]
      exact binary32_natCast (by decide)
    · refine ⟨k + 1, by omega, by omega, ?_⟩
      have htest : ¬ (20 : ℚ) < b.mem.contador := by
        rw [hk]
        exact_mod_cast hround
      have hsum : (k : ℚ) + 1 = (k + 1 : ℕ) := by push_cast; ring
      rw [ServidorDHT11.count, if_neg htest, hk, hsum]
      exact binary32_natCast (by omega)
  obtain ⟨k', hlow', hhigh', hk'⟩ := hcount
  refine ⟨⟨h.kept, ⟨k', by omega, hhigh', hk'⟩, h.writes⟩, k', hlow', hhigh', ?_, ?_⟩
  · rw [reading, ← hk']
    rfl
  · rw [reading, ← hk']
    rfl

theorem wp_sendFloat {path : String} {value : ℚ} (h : Sound b) (hproper : Proper b.mem.uid (path, value)) :
    wp (sendFloat path value) (fun _ t => Sound t ∧ t.mem.uid = b.mem.uid ∧
      t.mem.temperatura = b.mem.temperatura ∧ t.mem.humedad = b.mem.humedad) Sound b := by
  have hwritten : Sound ⟨b.clock, { b.mem with writes := b.mem.writes ++ [(path, value)] }⟩ := by
    refine ⟨h.kept, h.contador, fun entry hentry => ?_⟩
    rcases List.mem_append.mp hentry with hold | hnew
    · exact h.writes entry hold
    · rw [List.mem_singleton.mp hnew]
      exact hproper
  rw [sendFloat, wp_modify_bind, wp_call_bind]
  refine ⟨hwritten, fun answer => ?_⟩
  rw [wp_pure]
  exact ⟨hwritten.later (Nat.le_add_right _ _), rfl, rfl, rfl⟩

theorem wp_upload (h : Sound b) : wp upload (fun _ => Sound) Sound b := by
  obtain ⟨hcount, k, hlow, hhigh, htemperatura, hhumedad⟩ := h.count
  rw [upload, wp_modify_bind, wp_load_bind]
  dsimp only
  refine wp_seq (wp_sendFloat hcount ⟨k, hlow, hhigh, Or.inl (by rw [htemperatura])⟩)
    (fun _ ht => ht) ?_
  rintro - b₁ ⟨hsound, huid, -, -⟩
  have hproper : Proper b₁.mem.uid (humPath (ServidorDHT11.count b.mem).uid,
      (ServidorDHT11.count b.mem).humedad) := by
    rw [huid, hhumedad]
    exact ⟨k, hlow, hhigh, Or.inr rfl⟩
  exact wp_mono (wp_sendFloat hsound hproper) (fun _ _ ht => ht.1) (fun _ ht => ht)

theorem wp_loop (h : Sound b) : wp loop (fun _ => Sound) Sound b := by
  rw [loop]
  refine wp_seq (P := fun _ => Sound) (wp_within ?_) (fun _ ht => ht) ?_
  · refine wp_mono (Throttle.wp_pass true h.kept) ?_ ?_
    · exact fun _ t ht => ⟨ht, h.contador, h.writes⟩
    · exact fun t ht => ⟨ht, h.contador, h.writes⟩
  · intro passed b₁ hsound
    rw [wp_ite]
    exact ⟨fun _ => wp_upload hsound, fun _ => wp_pure.mpr hsound⟩

theorem wp_run (uid : String) (n clock : ℕ) : wp (run uid n) (fun _ => Sound) Sound ⟨clock, {}⟩ := by
  have hstart : ∀ clock uid, Sound ⟨clock, { uid }⟩ := fun clock uid =>
    ⟨Throttle.kept_start timerDelay clock, ⟨1, le_rfl, by decide, rfl⟩, fun entry hentry => by cases hentry⟩
  rw [run, setup]
  refine wp_seq (P := fun _ => Sound) ?_ (fun _ ht => ht) ?_
  · have hwait : ∀ t : Board Globals, t.mem = {} → Sound t := fun t ht => by
      obtain ⟨clock, mem⟩ := t
      obtain rfl : mem = {} := ht
      exact hstart clock ""
    refine wp_seq (wp_await (P := fun t => t.mem = {}) fun _ _ => rfl) hwait ?_
    intro _ b₁ hb₁
    refine wp_seq (wp_await (P := fun t => t.mem = {}) fun _ _ => hb₁) hwait ?_
    intro _ b₂ hb₂
    rw [wp_modify, hb₂]
    exact hstart b₂.clock uid
  · exact fun _ b₁ hb₁ => wp_iterate Sound hb₁ (fun _ ht => wp_loop ht) n

/-- A run of the sketch: the user, the instant of power-on, how often `loop()` is called, and what the
surroundings answer. -/
structure Run where
  uid : String
  clock : ℕ
  iterations : ℕ
  answers : List Answer

/-- The state that a run reaches. -/
def Run.state (r : Run) : Board Globals :=
  ((run r.uid r.iterations).run ⟨r.clock, {}⟩ r.answers).state

theorem Run.sound (r : Run) : Sound r.state :=
  state_of_wp (wp_run r.uid r.iterations r.clock) r.answers

end ServidorDHT11

/-! ## `ejemplo-servidordht11.ino` -/

namespace EjemploServidor

structure Globals where
  throttle : Throttle := {}
  signupOK : Bool := false

def timerDelay : UInt32 := 15000

def setup : Sketch Globals Unit := do
  await 300
  let answer ← call
  modify fun g => { g with signupOK := answer.ok }

/-- The two values are read from the database and printed. -/
def download : Sketch Globals Unit := do
  let _ ← call
  let _ ← call

def loop : Sketch Globals Unit := do
  let g ← load
  let passed ← within Globals.throttle (fun throttle g => { g with throttle })
    (Throttle.pass g.signupOK timerDelay)
  if passed then
    download

/-- `setup()` and then `n` times `loop()`. -/
def run (n : ℕ) : Sketch Globals Unit := do
  setup
  iterate loop n

def Sound (b : Board Globals) : Prop := Throttle.Kept timerDelay ⟨b.clock, b.mem.throttle⟩

theorem wp_loop {b : Board Globals} (h : Sound b) : wp loop (fun _ => Sound) Sound b := by
  rw [loop, wp_load_bind]
  refine wp_seq (P := fun _ => Sound) (wp_within (Throttle.wp_pass _ h)) (fun _ ht => ht) ?_
  intro passed b₁ hsound
  rw [wp_ite]
  refine ⟨fun _ => ?_, fun _ => wp_pure.mpr hsound⟩
  rw [download, wp_call_bind]
  refine ⟨hsound, fun first => ?_⟩
  have hfirst : Sound ⟨b₁.clock + first.elapsed, b₁.mem⟩ := hsound.later (Nat.le_add_right _ _)
  rw [wp_call_bind]
  exact ⟨hfirst, fun second => wp_pure.mpr (hfirst.later (Nat.le_add_right _ _))⟩

theorem wp_run (n clock : ℕ) : wp (run n) (fun _ => Sound) Sound ⟨clock, {}⟩ := by
  have hstart : ∀ t : Board Globals, t.mem.throttle = {} → Sound t := fun t ht => by
    rw [Sound, ht]
    exact Throttle.kept_start timerDelay t.clock
  rw [run, setup]
  refine wp_seq (P := fun _ => Sound) ?_ (fun _ ht => ht) ?_
  · refine wp_seq (wp_await (P := fun t => t.mem.throttle = {}) fun _ _ => rfl) hstart ?_
    intro _ b₁ hb₁
    rw [wp_call_bind]
    refine ⟨hstart b₁ hb₁, fun answer => ?_⟩
    rw [wp_modify]
    exact hstart _ hb₁
  · exact fun _ b₁ hb₁ => wp_iterate Sound hb₁ (fun _ ht => wp_loop ht) n

/-- A run of the sketch. -/
structure Run where
  clock : ℕ
  iterations : ℕ
  answers : List Answer

def Run.state (r : Run) : Board Globals := ((run r.iterations).run ⟨r.clock, {}⟩ r.answers).state

theorem Run.sound (r : Run) : Sound r.state := state_of_wp (wp_run r.iterations r.clock) r.answers

end EjemploServidor

/-! ## The distance of the uploads -/

/-- The instants at which a run assigned `sendDataPrevMillis`. -/
def ServidorDHT11.Run.sends (r : ServidorDHT11.Run) : List ℕ := r.state.mem.throttle.sends

def EjemploServidor.Run.sends (r : EjemploServidor.Run) : List ℕ := r.state.mem.throttle.sends

/-- Firebase is always ready; the second send comes when `millis` has just wrapped around. -/
def wrapAnswers : List Answer :=
  calm 6 ++ [{ elapsed := 2 ^ 32 - 1000 }] ++ calm 8

end Sketches
