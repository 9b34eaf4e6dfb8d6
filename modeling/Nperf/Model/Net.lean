import Nperf.Lib.Bytes
import Nperf.Model.Config

namespace Nperf
open Rust Bytes

/-- The first word of every datagram. -/
inductive MessageType | init | measurement | last
  deriving DecidableEq, Repr

def MessageType.code : MessageType → Nat
  | .init => 0
  | .measurement => 1
  | .last => 2

/-- The transmute of a word into the enumeration: a number without a variant
is undefined behaviour, not an error. -/
def MessageType.ofCode : Nat → Except Fault MessageType
  | 0 => .ok .init
  | 1 => .ok .measurement
  | 2 => .ok .last
  | _ => .error .invalidEnum

@[simp] theorem MessageType.ofCode_code (t : MessageType) : MessageType.ofCode t.code = .ok t := by
  cases t <;> rfl

theorem MessageType.exists_code {code : Nat} (h : code ≤ 2) : ∃ t : MessageType, code = t.code := by
  have hcases : code = 0 ∨ code = 1 ∨ code = 2 := by omega
  rcases hcases with rfl | rfl | rfl
  · exact ⟨.init, rfl⟩
  · exact ⟨.measurement, rfl⟩
  · exact ⟨.last, rfl⟩

theorem MessageType.code_inj {t u : MessageType} (h : t.code = u.code) : t = u := by
  cases t <;> cases u <;> first | rfl | cases h

/-- Message type, test id and packet id, a word each. -/
structure MessageHeader where
  mtype : MessageType
  testId : Nat
  packetId : Nat
  deriving DecidableEq, Repr

namespace MessageHeader

/-- `LEN_HEADER`: three words. -/
def lenHeader : Nat := 24

def serialize (h : MessageHeader) : Memory :=
  encode 8 h.mtype.code ++ encode 8 h.testId ++ encode 8 h.packetId

def setPacketId (h : MessageHeader) (packetId : Nat) : MessageHeader :=
  { h with packetId := packetId }

def getPacketId (buffer : Slice) : Except Fault Nat := buffer.word 2

def setPacketIdRaw (buffer : Slice) (packetId : Nat) : Except Fault Memory :=
  buffer.setWord 2 packetId

def getTestId (buffer : Slice) : Except Fault Nat := buffer.word 1

def getMessageType (buffer : Slice) : Except Fault MessageType :=
  buffer.word 0 >>= MessageType.ofCode

@[simp] theorem length_serialize (h : MessageHeader) : h.serialize.length = 24 := by
  simp [serialize]

theorem load_word {n : Nat} (hn : n < 2 ^ 64) : load (encode 8 n) 0 8 = n := by
  rw [load_encode, Nat.mod_eq_of_lt (by simpa using hn)]

theorem load_mtype (h : MessageHeader) : load h.serialize 0 8 = h.mtype.code := by
  have hcode : h.mtype.code < 2 ^ 64 := by cases h.mtype <;> decide
  rw [serialize, load_append_left _ _ (by simp), load_append_left _ _ (by simp), load_word hcode]

theorem load_testId (h : MessageHeader) (ht : h.testId < 2 ^ 64) :
    load h.serialize 8 8 = h.testId := by
  rw [serialize, load_append_left _ _ (by simp)]
  have := load_append_right (encode 8 h.mtype.code) (encode 8 h.testId) 0 8
  rw [length_encode, load_word ht] at this
  exact this

theorem load_packetId (h : MessageHeader) (hp : h.packetId < 2 ^ 64) :
    load h.serialize 16 8 = h.packetId := by
  have := load_append_right (encode 8 h.mtype.code ++ encode 8 h.testId)
    (encode 8 h.packetId) 0 8
  rw [List.length_append, length_encode, length_encode, load_word hp] at this
  exact this

/-- A slice that holds a whole header reads its packet id from bytes 16 to 23. -/
theorem getPacketId_ok (s : Slice) (hl : 24 ≤ s.len) (hm : s.start + s.len ≤ s.mem.length) :
    getPacketId s = .ok (load s.mem (s.start + 16) 8) :=
  word_ok s 2 (by omega) (by omega)

theorem getTestId_ok (s : Slice) (hl : 24 ≤ s.len) (hm : s.start + s.len ≤ s.mem.length) :
    getTestId s = .ok (load s.mem (s.start + 8) 8) :=
  word_ok s 1 (by omega) (by omega)

theorem getMessageType_ok (s : Slice) (t : MessageType) (hl : 24 ≤ s.len)
    (hm : s.start + s.len ≤ s.mem.length) (ht : load s.mem s.start 8 = t.code) :
    getMessageType s = .ok t := by
  have hw : s.word 0 = .ok (load s.mem s.start 8) := word_ok s 0 (by omega) (by omega)
  rw [getMessageType, hw, ht]
  exact MessageType.ofCode_code t

end MessageHeader
end Nperf
