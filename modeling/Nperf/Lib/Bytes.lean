import Nperf.Lib.Rust

namespace Bytes
open Rust

/-- The bytes of one allocation, from its base address on. -/
abbrev Memory := List UInt8

def byte (m : Memory) (i : Nat) : Nat := ((m[i]?).map UInt8.toNat).getD 0

/-- The number in the `w` bytes at `at`, least significant byte first. -/
def load (m : Memory) (off : Nat) : Nat → Nat
  | 0 => 0
  | w + 1 => byte m off + 256 * load m (off + 1) w

/-- The `w` bytes of a number, least significant first. -/
def encode : Nat → Nat → Memory
  | 0, _ => []
  | w + 1, n => UInt8.ofNat (n % 256) :: encode w (n / 256)

/-- Overwrite the bytes at `off`; the length of the memory does not change. -/
def store (m : Memory) (off : Nat) (bytes : Memory) : Memory :=
  m.mapIdx (fun i b => if off ≤ i ∧ i < off + bytes.length then bytes.getD (i - off) 0 else b)

@[simp] theorem length_encode (w n : Nat) : (encode w n).length = w := by
  induction w generalizing n with
  | zero => rfl
  | succ w ih => simp [encode, ih]

@[simp] theorem length_store (m : Memory) (off : Nat) (bytes : Memory) :
    (store m off bytes).length = m.length := by
  simp [store]

theorem store_outside (m : Memory) (off : Nat) (bytes : Memory) (i : Nat)
    (h : i < off ∨ off + bytes.length ≤ i) : (store m off bytes)[i]? = m[i]? := by
  have hn : ¬(off ≤ i ∧ i < off + bytes.length) := by omega
  simp [store, List.getElem?_mapIdx, hn]

theorem store_inside (m : Memory) (off : Nat) (bytes : Memory) (i : Nat)
    (hi : i < bytes.length) (hm : off + bytes.length ≤ m.length) :
    (store m off bytes)[off + i]? = bytes[i]? := by
  have hlt : off + i < m.length := by omega
  simp [store, hlt, hi]

/-- A load depends on the bytes of its window only. -/
theorem load_congr {m m' : Memory} {off off' w : Nat}
    (h : ∀ i < w, m[off + i]? = m'[off' + i]?) : load m off w = load m' off' w := by
  induction w generalizing off off' with
  | zero => rfl
  | succ w ih =>
    have hb : byte m off = byte m' off' := by
      have := h 0 (by omega)
      simp only [Nat.add_zero] at this
      simp [byte, this]
    have ht : load m (off + 1) w = load m' (off' + 1) w := by
      apply ih
      intro i hi
      have := h (i + 1) (by omega)
      rw [Nat.add_assoc, Nat.add_comm 1 i, Nat.add_assoc, Nat.add_comm 1 i]
      exact this
    simp [load, hb, ht]

theorem load_append_left (m m' : Memory) {off w : Nat} (h : off + w ≤ m.length) :
    load (m ++ m') off w = load m off w := by
  apply load_congr
  intro i hi
  exact List.getElem?_append_left (by omega)

theorem load_append_right (m m' : Memory) (off w : Nat) :
    load (m ++ m') (m.length + off) w = load m' off w := by
  apply load_congr
  intro i hi
  rw [List.getElem?_append_right (by omega)]
  congr 1
  omega

theorem load_drop (m : Memory) (k off w : Nat) :
    load (m.drop k) off w = load m (k + off) w := by
  apply load_congr
  intro i hi
  rw [List.getElem?_drop, Nat.add_assoc]

theorem load_take (m : Memory) {k off w : Nat} (h : off + w ≤ k) :
    load (m.take k) off w = load m off w := by
  apply load_congr
  intro i hi
  exact List.getElem?_take_of_lt (by omega)

theorem load_encode (w n : Nat) : load (encode w n) 0 w = n % 256 ^ w := by
  induction w generalizing n with
  | zero => simp [load, Nat.mod_one]
  | succ w ih =>
    have ht : load (encode (w + 1) n) 1 w = load (encode w (n / 256)) 0 w := by
      apply load_congr
      intro i hi
      rw [Nat.add_comm 1 i, Nat.zero_add]
      rfl
    have hb : byte (encode (w + 1) n) 0 = n % 256 := by
      simp [byte, encode]
    simp only [load, Nat.zero_add, ht, hb, ih]
    rw [Nat.pow_succ, Nat.mul_comm (256 ^ w), Nat.mod_mul]

theorem load_store_inside (m : Memory) (off k w : Nat) (bytes : Memory)
    (hm : off + bytes.length ≤ m.length) (hk : k + w ≤ bytes.length) :
    load (store m off bytes) (off + k) w = load bytes k w := by
  apply load_congr
  intro i hi
  rw [Nat.add_assoc, store_inside m off bytes (k + i) (by omega) hm]

theorem load_store_same (m : Memory) (off w n : Nat) (hm : off + w ≤ m.length)
    (hn : n < 256 ^ w) : load (store m off (encode w n)) off w = n := by
  have h := load_store_inside m off 0 w (encode w n) (by simpa using hm) (by simp)
  rw [Nat.add_zero] at h
  rw [h, load_encode, Nat.mod_eq_of_lt hn]

theorem load_store_other (m : Memory) (off off' w : Nat) (bytes : Memory)
    (h : off' + w ≤ off ∨ off + bytes.length ≤ off') :
    load (store m off bytes) off' w = load m off' w := by
  apply load_congr
  intro i hi
  exact store_outside m off bytes (off' + i) (by omega)

/-- A byte slice: where it starts in its allocation, and how long it is. The
rest of the allocation is there, although it is not part of the slice. -/
structure Slice where
  mem : Memory
  start : Nat
  len : Nat

/-- `slice::from_raw_parts`: nobody compares the length with the allocation. -/
def rawSlice (m : Memory) (len : Nat) : Except Fault Slice :=
  if len ≤ m.length then .ok ⟨m, 0, len⟩ else .error .outOfBounds

/-- `&slice[k..]` -/
def Slice.from (s : Slice) (k : Nat) : Except Fault Slice :=
  if k ≤ s.len then .ok ⟨s.mem, s.start + k, s.len - k⟩ else .error .index

/-- Element `i` of the slice after a transmute to words. The transmute keeps
the length, so the index is compared with a number of bytes; a word that ends
outside of the allocation is not caught by it. -/
def Slice.word (s : Slice) (i : Nat) : Except Fault Nat :=
  if s.len ≤ i then .error .index
  else if s.mem.length < s.start + 8 * i + 8 then .error .outOfBounds
  else .ok (load s.mem (s.start + 8 * i) 8)

/-- Assignment to element `i` of the transmuted slice. -/
def Slice.setWord (s : Slice) (i n : Nat) : Except Fault Memory :=
  if s.len ≤ i then .error .index
  else if s.mem.length < s.start + 8 * i + 8 then .error .outOfBounds
  else .ok (store s.mem (s.start + 8 * i) (encode 8 n))

/-- `slice.chunks(size)`: all of one size, the last one possibly shorter. -/
def Slice.chunks (s : Slice) (size : Nat) : Except Fault (List Slice) :=
  if size = 0 then .error .chunkSize
  else .ok ((List.range ((s.len + size - 1) / size)).map (fun i =>
    ⟨s.mem, s.start + i * size, min size (s.len - i * size)⟩))

/-- Every chunk of a slice has at least `k` bytes if the last one has. -/
theorem chunk_room {len size i k : Nat} (hk : 0 < k) (hsize : k ≤ size)
    (htail : len % size = 0 ∨ k ≤ len % size) (hi : i < (len + size - 1) / size) :
    i * size + k ≤ len := by
  have hle : (i + 1) * size ≤ len + size - 1 := (Nat.le_div_iff_mul_le (by omega)).mp hi
  rw [Nat.add_mul, Nat.one_mul] at hle
  rcases Nat.lt_or_ge (len - i * size) size with hlast | hfull
  · have hmod : len % size = len - i * size := by
      have hsplit : len = (len - i * size) + i * size := by omega
      rw [hsplit, Nat.add_mul_mod_self_right, Nat.mod_eq_of_lt (by omega)]
      omega
    omega
  · omega

/-- Element `i` of the transmuted slice is in the first `bytes` bytes of its
allocation. -/
def Slice.Within (s : Slice) (i bytes : Nat) : Prop := s.start + 8 * i + 8 ≤ bytes

/-- Word `i` of every chunk is in the slice exactly if the last chunk has it. -/
theorem Slice.chunks_within_iff {m : Memory} {len size i : Nat} {chunks : List Slice}
    (hlen : 0 < len) (h : Slice.chunks ⟨m, 0, len⟩ size = .ok chunks) :
    (∀ chunk ∈ chunks, chunk.Within i len) ↔
      8 * i + 8 ≤ size ∧ (len % size = 0 ∨ 8 * i + 8 ≤ len % size) := by
  unfold Slice.chunks at h
  split at h
  · cases h
  rename_i hsize
  cases h
  simp only [List.forall_mem_map, List.mem_range, Slice.Within, Nat.zero_add]
  constructor
  · intro h
    -- the last chunk begins at `k * size`
    obtain ⟨k, hk⟩ : ∃ k, (len + size - 1) / size = k + 1 :=
      Nat.exists_eq_succ_of_ne_zero (Nat.ne_of_gt (Nat.div_pos (by omega) (by omega)))
    have hlast := h k (by omega)
    have hbelow := Nat.lt_mul_div_succ (len + size - 1) (Nat.pos_of_ne_zero hsize)
    have hstart := Nat.div_mul_le_self (len + size - 1) size
    rw [hk, Nat.add_mul, Nat.one_mul] at hstart
    rw [hk, Nat.mul_add, Nat.mul_add, Nat.mul_one, Nat.mul_comm] at hbelow
    have hmod : len % size = (len - k * size) % size := by
      rw [← Nat.add_mul_mod_self_right (len - k * size) k size, Nat.sub_add_cancel (by omega)]
    rw [hmod]
    refine ⟨by omega, ?_⟩
    rcases Nat.eq_or_lt_of_le (show len - k * size ≤ size by omega) with hfull | hpart
    · exact .inl (by rw [hfull, Nat.mod_self])
    · exact .inr (by rw [Nat.mod_eq_of_lt hpart]; omega)
  · rintro ⟨hroom, htail⟩ k hk
    have := chunk_room (by omega) hroom htail hk
    omega

theorem rawSlice_ok {m : Memory} {len : Nat} {s : Slice} (h : rawSlice m len = .ok s) :
    len ≤ m.length ∧ s = ⟨m, 0, len⟩ := by
  unfold rawSlice at h
  split at h
  · rename_i hle
    cases h
    exact ⟨hle, rfl⟩
  · cases h

theorem word_ok (s : Slice) (i : Nat) (hi : i < s.len)
    (hm : s.start + 8 * i + 8 ≤ s.mem.length) :
    s.word i = .ok (load s.mem (s.start + 8 * i) 8) := by
  unfold Slice.word
  rw [if_neg (by omega), if_neg (by omega)]

theorem setWord_ok (s : Slice) (i n : Nat) (hi : i < s.len)
    (hm : s.start + 8 * i + 8 ≤ s.mem.length) :
    s.setWord i n = .ok (store s.mem (s.start + 8 * i) (encode 8 n)) := by
  unfold Slice.setWord
  rw [if_neg (by omega), if_neg (by omega)]

end Bytes
