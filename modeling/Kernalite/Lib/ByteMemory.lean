import Mathlib.Tactic.Common
import Mathlib.Tactic.SplitIfs

/-!
# Flat byte memory

A memory is a byte at every address. Doublewords are stored little-endian.
What a proof needs from a store is only where it writes and what a later load
sees; both are stated here once:

* `load64_store64_same` / `load64_store64_apart` — a load sees the last store
  to its slot and ignores stores elsewhere;
* `load64_congr` / `load64_eq_iff` — a load depends on its own eight bytes only, and
  on each of them;
* `SameOutside` — the frame relation "equal except on a set of addresses",
  which composes (`SameOutside.trans`).
-/

namespace ByteMemory

abbrev Byte := BitVec 8

abbrev Mem := Nat → Byte

/-- The little-endian doubleword at `a`. -/
def load64 (m : Mem) (a : Nat) : BitVec 64 :=
  m (a + 7) ++ m (a + 6) ++ m (a + 5) ++ m (a + 4) ++
    m (a + 3) ++ m (a + 2) ++ m (a + 1) ++ m a

/-- Store one byte. -/
def store8 (m : Mem) (a : Nat) (b : Byte) : Mem :=
  fun x => if x = a then b else m x

/-- Store the doubleword `v` at `a`, little-endian. -/
def store64 (m : Mem) (a : Nat) (v : BitVec 64) : Mem :=
  fun x => if a ≤ x ∧ x < a + 8 then v.extractLsb' (8 * (x - a)) 8 else m x

/-! ## Loads after stores -/

theorem store8_same (m : Mem) (a : Nat) (b : Byte) : store8 m a b a = b := by
  simp [store8]

theorem store8_of_ne {m : Mem} {a x : Nat} {b : Byte} (h : x ≠ a) :
    store8 m a b x = m x := by
  simp [store8, h]

theorem store64_outside {m : Mem} {a x : Nat} {v : BitVec 64} (h : x < a ∨ a + 8 ≤ x) :
    store64 m a v x = m x := by
  rw [store64, if_neg (by omega)]

/-- Byte `i` of a stored doubleword. -/
theorem store64_byte (m : Mem) (a : Nat) (v : BitVec 64) {i : Nat} (hi : i < 8) :
    store64 m a v (a + i) = v.extractLsb' (8 * i) 8 := by
  rw [store64, if_pos (by omega), Nat.add_sub_cancel_left]

/-- The eight bytes of a doubleword, put back together. -/
theorem append_bytes (v : BitVec 64) :
    v.extractLsb' 56 8 ++ v.extractLsb' 48 8 ++ v.extractLsb' 40 8 ++ v.extractLsb' 32 8 ++
      v.extractLsb' 24 8 ++ v.extractLsb' 16 8 ++ v.extractLsb' 8 8 ++ v.extractLsb' 0 8 = v := by
  apply BitVec.eq_of_getLsbD_eq
  intro i hi
  simp only [BitVec.getLsbD_append, BitVec.getLsbD_extractLsb']
  -- one case for each byte the bit can lie in
  split_ifs <;> rw [decide_eq_true (by omega), Bool.true_and] <;> congr 1 <;> omega

theorem load64_congr {m m' : Mem} {a : Nat} (h : ∀ x, a ≤ x → x < a + 8 → m x = m' x) :
    load64 m a = load64 m' a := by
  have hByte : ∀ i, i < 8 → m (a + i) = m' (a + i) := fun i hi => h (a + i) (by omega) (by omega)
  have h0 : m a = m' a := hByte 0 (by omega)
  simp only [load64, h0, hByte 1 (by omega), hByte 2 (by omega), hByte 3 (by omega),
    hByte 4 (by omega), hByte 5 (by omega), hByte 6 (by omega), hByte 7 (by omega)]

/-- Byte `i` of a loaded doubleword. -/
theorem load64_byte (m : Mem) (a : Nat) {i : Nat} (hi : i < 8) :
    (load64 m a).extractLsb' (8 * i) 8 = m (a + i) := by
  apply BitVec.eq_of_getLsbD_eq
  intro j hj
  rw [BitVec.getLsbD_extractLsb', decide_eq_true hj, Bool.true_and, load64]
  simp only [BitVec.getLsbD_append]
  -- one case for each byte the bit can lie in
  split_ifs <;> congr 2 <;> omega

theorem load64_eq_iff {m m' : Mem} {a : Nat} :
    load64 m a = load64 m' a ↔ ∀ x, a ≤ x → x < a + 8 → m x = m' x := by
  refine ⟨fun h x hLow hHigh => ?_, load64_congr⟩
  obtain ⟨i, rfl⟩ := Nat.exists_eq_add_of_le hLow
  have hi : i < 8 := by omega
  rw [← load64_byte m a hi, ← load64_byte m' a hi, h]

theorem load64_store64_same (m : Mem) (a : Nat) (v : BitVec 64) :
    load64 (store64 m a v) a = v := by
  have h0 : store64 m a v a = v.extractLsb' 0 8 := store64_byte m a v (i := 0) (by omega)
  simp only [load64, h0, store64_byte m a v (i := 1) (by omega),
    store64_byte m a v (i := 2) (by omega), store64_byte m a v (i := 3) (by omega),
    store64_byte m a v (i := 4) (by omega), store64_byte m a v (i := 5) (by omega),
    store64_byte m a v (i := 6) (by omega), store64_byte m a v (i := 7) (by omega)]
  exact append_bytes v

theorem load64_store64_apart {m : Mem} {a b : Nat} {v : BitVec 64}
    (h : b + 8 ≤ a ∨ a + 8 ≤ b) : load64 (store64 m a v) b = load64 m b :=
  load64_congr fun x hlo hhi => store64_outside (by omega)

theorem store64_store64_same (m : Mem) (a : Nat) (v w : BitVec 64) :
    store64 (store64 m a v) a w = store64 m a w := by
  funext x
  simp only [store64]
  split_ifs <;> rfl

/-- Storing zero makes all eight bytes zero. -/
theorem store64_zero_inside {m : Mem} {a x : Nat} (hlo : a ≤ x) (hhi : x < a + 8) :
    store64 m a 0 x = 0 := by
  rw [store64, if_pos ⟨hlo, hhi⟩]
  exact BitVec.extractLsb'_zero ..

theorem load64_of_zero {m : Mem} {a : Nat} (h : ∀ x, a ≤ x → x < a + 8 → m x = 0) :
    load64 m a = 0 := by
  have hZero : load64 m a = load64 (fun _ => 0) a := load64_congr h
  rw [hZero]
  simp only [load64]
  decide

/-! ## Frames -/

/-- The two memories agree on every address where `S` does not hold. -/
def SameOutside (S : Nat → Prop) (m m' : Mem) : Prop :=
  ∀ a, ¬ S a → m' a = m a

theorem SameOutside.refl (S : Nat → Prop) (m : Mem) : SameOutside S m m :=
  fun _ _ => rfl

theorem SameOutside.mono {S T : Nat → Prop} {m m' : Mem} (h : SameOutside S m m')
    (hST : ∀ a, S a → T a) : SameOutside T m m' :=
  fun a ha => h a fun hS => ha (hST a hS)

theorem SameOutside.trans {S : Nat → Prop} {m m' m'' : Mem} (h : SameOutside S m m')
    (h' : SameOutside S m' m'') : SameOutside S m m'' :=
  fun a ha => (h' a ha).trans (h a ha)

theorem sameOutside_store64 (m : Mem) (a : Nat) (v : BitVec 64) :
    SameOutside (fun x => a ≤ x ∧ x < a + 8) m (store64 m a v) :=
  fun x hx => store64_outside (by omega)

end ByteMemory
