import Prometeus.Foundation.Mqtt

/-! # The CONNECT packet

The packet that opens a session, with its optional will and credentials. Which of them are there
is said by one byte of flags, and a server recovers all of them from the packet.
-/

namespace Mqtt

/-- The message that the server publishes when the connection is lost. -/
structure Will where
  topic : Bytes
  message : Bytes
  qos : UInt8
  retain : Bool
deriving DecidableEq, Repr

structure Credentials where
  user : Bytes
  pass : Option Bytes
deriving DecidableEq, Repr

structure Connect where
  id : Bytes
  will : Option Will := none
  credentials : Option Credentials := none
  cleanSession : Bool := true
  keepAlive : ℕ
deriving DecidableEq, Repr

namespace Connect

/-! ## Writing -/

def willFlags : Option Will → UInt8
  | none => 0
  | some w => (0x04 : UInt8) ||| (w.qos <<< 3) ||| if w.retain then 0x20 else 0

def credentialFlags : Option Credentials → UInt8
  | none => 0
  | some c => (0x80 : UInt8) ||| if c.pass.isSome then 0x40 else 0

def flags (c : Connect) : UInt8 :=
  willFlags c.will ||| (if c.cleanSession then 0x02 else 0) ||| credentialFlags c.credentials

def protocolName : Bytes := [0x4D, 0x51, 0x54, 0x54]

/-- The texts behind the variable header. -/
def texts (c : Connect) : List Bytes :=
  c.id :: (c.will.elim [] (fun w => [w.topic, w.message]) ++
    c.credentials.elim [] fun cr => cr.user :: cr.pass.toList)

def variableHeader (c : Connect) : Bytes :=
  text protocolName ++ (4 :: c.flags :: word c.keepAlive)

theorem length_variableHeader (c : Connect) : c.variableHeader.length = 10 := rfl

def packet (c : Connect) : Bytes := frame connectType (c.variableHeader ++ c.texts.flatMap text)

/-! ## Reading -/

def readWill (flags : UInt8) (bs : Bytes) : Option (Option Will × Bytes) :=
  if flags &&& 0x04 = 0 then
    some (none, bs)
  else
    (readText bs).bind fun (topic, bs) => (readText bs).map fun (message, bs) =>
      (some ⟨topic, message, (flags >>> 3) &&& 3, flags &&& 0x20 ≠ 0⟩, bs)

def readCredentials (flags : UInt8) (bs : Bytes) : Option (Option Credentials × Bytes) :=
  if flags &&& 0x80 = 0 then
    some (none, bs)
  else
    (readText bs).bind fun (user, bs) =>
      if flags &&& 0x40 = 0 then
        some (some ⟨user, none⟩, bs)
      else
        (readText bs).map fun (pass, bs) => (some ⟨user, some pass⟩, bs)

/-- The payload, of which nothing must be left. -/
def readPayload (flags : UInt8) (keepAlive : ℕ) (bs : Bytes) : Option Connect :=
  (readText bs).bind fun (id, bs) => (readWill flags bs).bind fun (will, bs) =>
    (readCredentials flags bs).bind fun (credentials, bs) =>
      if bs = [] then
        some { id, will, credentials, cleanSession := flags &&& 0x02 ≠ 0, keepAlive }
      else
        none

/-- What a server makes of a packet. -/
def decode (packet : Bytes) : Option Connect :=
  (unframe packet).bind fun (header, body) =>
    if header = connectType then
      match readText body with
      | some (name, level :: flags :: high :: low :: rest) =>
          if name = protocolName ∧ level = 4 then
            readPayload flags (high.toNat * 256 + low.toNat) rest
          else
            none
      | _ => none
    else
      none

/-! ## The round trip -/

/-- What the fields of the packet can hold. -/
structure WellFormed (c : Connect) : Prop where
  texts : ∀ t ∈ c.texts, t.length < 65536
  qos : ∀ w ∈ c.will, w.qos ≤ 2
  keepAlive : c.keepAlive < 65536
  length : (c.variableHeader ++ c.texts.flatMap text).length < 128 ^ 4

theorem eq_of_qos_le {q : UInt8} (h : q ≤ 2) : q = 0 ∨ q = 1 ∨ q = 2 := by
  have hle := UInt8.le_iff_toNat_le.mp h
  have hcases : q.toNat = 0 ∨ q.toNat = 1 ∨ q.toNat = 2 := by
    have htwo : (2 : UInt8).toNat = 2 := rfl
    omega
  rcases hcases with h | h | h
  · exact Or.inl (UInt8.toNat_inj.mp h)
  · exact Or.inr (Or.inl (UInt8.toNat_inj.mp h))
  · exact Or.inr (Or.inr (UInt8.toNat_inj.mp h))

/-- Each part of the flags can be told from the others. -/
theorem flags_spec {c : Connect} (hqos : ∀ w ∈ c.will, w.qos ≤ 2) :
    (c.flags &&& 0x04 = 0 ↔ c.will = none) ∧
      (∀ w ∈ c.will, (c.flags >>> 3) &&& 3 = w.qos ∧ (decide (c.flags &&& 0x20 ≠ 0)) = w.retain) ∧
      decide (c.flags &&& 0x02 ≠ 0) = c.cleanSession ∧
      (c.flags &&& 0x80 = 0 ↔ c.credentials = none) ∧
      ∀ cr ∈ c.credentials, (c.flags &&& 0x40 = 0 ↔ cr.pass = none) := by
  obtain ⟨id, will, credentials, clean, keepAlive⟩ := c
  have hcredentials : credentials = none ∨ (∃ user, credentials = some ⟨user, none⟩) ∨
      ∃ user pass, credentials = some ⟨user, some pass⟩ := by
    rcases credentials with _ | ⟨user, _ | pass⟩
    · exact Or.inl rfl
    · exact Or.inr (Or.inl ⟨user, rfl⟩)
    · exact Or.inr (Or.inr ⟨user, pass, rfl⟩)
  cases will with
  | none =>
      rcases hcredentials with rfl | ⟨user, rfl⟩ | ⟨user, pass, rfl⟩ <;>
        cases clean <;> simp [flags, willFlags, credentialFlags] <;> decide
  | some w =>
      obtain ⟨topic, message, qos, retain⟩ := w
      obtain rfl | rfl | rfl := eq_of_qos_le (hqos _ rfl) <;>
        rcases hcredentials with rfl | ⟨user, rfl⟩ | ⟨user, pass, rfl⟩ <;>
          cases clean <;> cases retain <;> simp [flags, willFlags, credentialFlags] <;> decide

theorem readWill_eq {c : Connect} (h : c.WellFormed) (rest : Bytes) :
    readWill c.flags ((c.will.elim [] fun w => [w.topic, w.message]).flatMap text ++ rest) =
      some (c.will, rest) := by
  obtain ⟨hwill, hfields, -⟩ := flags_spec h.qos
  cases hcase : c.will with
  | none => rw [readWill, if_pos (hwill.mpr hcase), Option.elim_none, List.flatMap_nil, List.nil_append]
  | some w =>
      have htexts : ∀ t ∈ [w.topic, w.message], t.length < 65536 := by
        intro t ht
        apply h.texts
        rw [Connect.texts, hcase, Option.elim_some]
        exact List.mem_cons_of_mem _ (List.mem_append_left _ ht)
      obtain ⟨hqos, hretain⟩ := hfields w hcase
      have hthere : ¬c.flags &&& 0x04 = 0 := fun hnone => by
        rw [hwill.mp hnone] at hcase
        cases hcase
      rw [readWill, if_neg hthere, Option.elim_some, List.flatMap_cons, List.flatMap_singleton,
        List.append_assoc, readText_text (htexts w.topic (by simp)), Option.bind_some]
      dsimp only
      rw [readText_text (htexts w.message (by simp)), Option.map_some, hqos, hretain]

theorem readCredentials_eq {c : Connect} (h : c.WellFormed) (rest : Bytes) :
    readCredentials c.flags
      ((c.credentials.elim [] fun cr => cr.user :: cr.pass.toList).flatMap text ++ rest) =
      some (c.credentials, rest) := by
  obtain ⟨-, -, -, hcredentials, hpass⟩ := flags_spec h.qos
  cases hcase : c.credentials with
  | none =>
      rw [readCredentials, if_pos (hcredentials.mpr hcase), Option.elim_none, List.flatMap_nil,
        List.nil_append]
  | some cr =>
      have htexts : ∀ t ∈ cr.user :: cr.pass.toList, t.length < 65536 := by
        intro t ht
        apply h.texts
        rw [Connect.texts, hcase, Option.elim_some]
        exact List.mem_cons_of_mem _ (List.mem_append_right _ ht)
      have hthere : ¬c.flags &&& 0x80 = 0 := fun hnone => by
        rw [hcredentials.mp hnone] at hcase
        cases hcase
      have hpass := hpass cr hcase
      obtain ⟨user, pass⟩ := cr
      rw [readCredentials, if_neg hthere, Option.elim_some, List.flatMap_cons, List.append_assoc,
        readText_text (htexts _ List.mem_cons_self), Option.bind_some]
      dsimp only
      cases pass with
      | none =>
          rw [if_pos (hpass.mpr rfl)]
          rfl
      | some pass =>
          have hflag : ¬c.flags &&& 0x40 = 0 := fun hnone => by cases hpass.mp hnone
          rw [if_neg hflag, Option.toList_some, List.flatMap_singleton,
            readText_text (htexts pass (by simp)), Option.map_some]

/-- A server recovers the arguments of the packet. -/
theorem decode_packet {c : Connect} (h : c.WellFormed) : decode c.packet = some c := by
  have hid : c.id.length < 65536 := h.texts _ List.mem_cons_self
  have hclean := (flags_spec h.qos).2.2.1
  have hpayload : readPayload c.flags c.keepAlive (c.texts.flatMap text) = some c := by
    have hcredentials := readCredentials_eq h []
    rw [List.append_nil] at hcredentials
    rw [readPayload, Connect.texts, List.flatMap_cons, readText_text hid, Option.bind_some]
    dsimp only
    rw [List.flatMap_append, readWill_eq h, Option.bind_some]
    dsimp only
    rw [hcredentials, Option.bind_some]
    dsimp only
    rw [if_pos rfl, hclean]
  have hbody : readText (c.variableHeader ++ c.texts.flatMap text) = some (protocolName,
      4 :: c.flags :: UInt8.ofNat (c.keepAlive / 256) :: UInt8.ofNat c.keepAlive ::
        c.texts.flatMap text) := by
    rw [variableHeader, List.append_assoc, readText_text (by decide)]
    rfl
  rw [decode, packet, unframe_frame connectType h.length, Option.bind_some]
  dsimp only
  rw [if_pos rfl, hbody]
  dsimp only
  rw [if_pos ⟨rfl, rfl⟩, word_value h.keepAlive, hpayload]

end Connect

end Mqtt
