/-
The leaf element codec of `page.go`: one 64-bit word holding `flags` (bit 63), `pos` (bits
37–62), `ksize` (bits 24–36) and `vsize` (bits 0–23). Packing in-range fields and reading them
back gives the fields, and every word is the packing of its own fields. `fill` checks only
`pos`: an out-of-range `flags`, `ksize` or `vsize` is packed without complaint and reads back as
something else.
-/
import Bbolt.Page.Basic

namespace Bbolt

/-! ## The element word -/

/-- `leafPageElement`: the packed word `data` (`uint64`). -/
structure LeafPageElement where
  data : BitVec 64
  deriving DecidableEq, Repr

namespace LeafPageElement

def flags (n : LeafPageElement) : BitVec 32 := (n.data >>> 63).setWidth 32

def pos (n : LeafPageElement) : BitVec 32 := (n.data >>> 37).setWidth 32 &&& 0x3FFFFFF

def ksize (n : LeafPageElement) : BitVec 32 := (n.data >>> 24).setWidth 32 &&& 0x1FFF

def vsize (n : LeafPageElement) : BitVec 32 := n.data.setWidth 32 &&& 0xFFFFFF

/-- `fill(flags, pos, ksize, vsize)`: asserts `pos <= 0x3FFFFFF` and packs the four values, each
converted to `uint64` (`int` by two's complement). -/
def fill (flags : BitVec 32) (pos : BitVec 64) (ksize vsize : Int) : Except String LeafPageElement :=
  if pos ≤ 0x3FFFFFF then
    .ok ⟨flags.setWidth 64 <<< 63 ||| pos <<< 37 ||| BitVec.ofInt 64 ksize <<< 24 |||
      BitVec.ofInt 64 vsize⟩
  else .error ("assertion failed: impossible page offset: " ++ toString pos.toNat)

/-- `key()`: the key's bytes, as offsets from the element. -/
def key (n : LeafPageElement) : Nat × Nat := (n.pos.toNat, n.pos.toNat + n.ksize.toNat)

/-- `value()`: the value's bytes, right after the key. -/
def value (n : LeafPageElement) : Nat × Nat :=
  (n.pos.toNat + n.ksize.toNat, n.pos.toNat + n.ksize.toNat + n.vsize.toNat)

end LeafPageElement

/-- `leafPageElement(index)`: the word at `index` of the array after the header. -/
def Page.leafPageElement (p : Page) (index : Nat) : LeafPageElement :=
  ⟨BitVec.ofNat 64 (readLE p.mem (pageHeaderSize + leafPageElementSize * index) 8)⟩

/-- `leafPageElements()`: the `count` elements. -/
def Page.leafPageElements (p : Page) : List LeafPageElement :=
  (List.range p.count).map p.leafPageElement

/-! ## The fields as arithmetic -/

theorem two_pow_mul_or (a b n : Nat) (hb : b < 2 ^ n) : 2 ^ n * a ||| b = 2 ^ n * a + b := by
  apply Nat.eq_of_testBit_eq
  intro j
  rw [Nat.testBit_or, Nat.testBit_mul_pow_two, Nat.testBit_mul_pow_two_add a hb]
  by_cases hj : j < n
  · simp [hj]
  · have : b.testBit j = false :=
      Nat.testBit_lt_two_pow (Nat.lt_of_lt_of_le hb (Nat.pow_le_pow_right (by omega) (by omega)))
    simp [hj, this]; omega

namespace LeafPageElement

theorem flags_toNat (n : LeafPageElement) : n.flags.toNat = n.data.toNat / 2 ^ 63 := by
  have := n.data.isLt
  simp only [flags, BitVec.toNat_setWidth, BitVec.toNat_ushiftRight, Nat.shiftRight_eq_div_pow]
  omega

theorem pos_toNat (n : LeafPageElement) : n.pos.toNat = n.data.toNat / 2 ^ 37 % 2 ^ 26 := by
  have := n.data.isLt
  simp only [pos, BitVec.toNat_and, BitVec.toNat_setWidth, BitVec.toNat_ushiftRight,
    Nat.shiftRight_eq_div_pow, show (0x3FFFFFF : BitVec 32).toNat = 2 ^ 26 - 1 from rfl,
    Nat.and_pow_two_sub_one_eq_mod]
  omega

theorem ksize_toNat (n : LeafPageElement) : n.ksize.toNat = n.data.toNat / 2 ^ 24 % 2 ^ 13 := by
  have := n.data.isLt
  simp only [ksize, BitVec.toNat_and, BitVec.toNat_setWidth, BitVec.toNat_ushiftRight,
    Nat.shiftRight_eq_div_pow, show (0x1FFF : BitVec 32).toNat = 2 ^ 13 - 1 from rfl,
    Nat.and_pow_two_sub_one_eq_mod]
  omega

theorem vsize_toNat (n : LeafPageElement) : n.vsize.toNat = n.data.toNat % 2 ^ 24 := by
  simp only [vsize, BitVec.toNat_and, BitVec.toNat_setWidth,
    show (0xFFFFFF : BitVec 32).toNat = 2 ^ 24 - 1 from rfl, Nat.and_pow_two_sub_one_eq_mod]
  omega

theorem fill_data_toNat (flags : BitVec 32) (pos : BitVec 64) (ksize vsize : Nat)
    (hf : flags.toNat < 2) (hp : pos.toNat < 2 ^ 26) (hk : ksize < 2 ^ 13) (hv : vsize < 2 ^ 24) :
    (flags.setWidth 64 <<< 63 ||| pos <<< 37 ||| BitVec.ofInt 64 ksize <<< 24 |||
      BitVec.ofInt 64 vsize).toNat =
      2 ^ 63 * flags.toNat + (2 ^ 37 * pos.toNat + (2 ^ 24 * ksize + vsize)) := by
  have e1 : (flags.setWidth 64 <<< 63).toNat = 2 ^ 63 * flags.toNat := by
    simp only [BitVec.toNat_shiftLeft, BitVec.toNat_setWidth, Nat.shiftLeft_eq]; omega
  have e2 : (pos <<< 37).toNat = 2 ^ 37 * pos.toNat := by
    simp only [BitVec.toNat_shiftLeft, Nat.shiftLeft_eq]; omega
  have e3 : (BitVec.ofInt 64 ksize <<< 24).toNat = 2 ^ 24 * ksize := by
    simp only [BitVec.toNat_shiftLeft, BitVec.ofInt_natCast, BitVec.toNat_ofNat, Nat.shiftLeft_eq]
    omega
  have e4 : (BitVec.ofInt 64 vsize).toNat = vsize := by
    simp only [BitVec.ofInt_natCast, BitVec.toNat_ofNat]; omega
  rw [BitVec.toNat_or, BitVec.toNat_or, BitVec.toNat_or, e1, e2, e3, e4, Nat.or_assoc,
    Nat.or_assoc, two_pow_mul_or _ _ _ hv, two_pow_mul_or pos.toNat (2 ^ 24 * ksize + vsize) 37
    (by omega), two_pow_mul_or _ _ _ (by omega)]

theorem fill_ok (flags : BitVec 32) (pos : BitVec 64) (ksize vsize : Int) (hp : pos.toNat ≤ 0x3FFFFFF) :
    fill flags pos ksize vsize = .ok ⟨flags.setWidth 64 <<< 63 ||| pos <<< 37 |||
      BitVec.ofInt 64 ksize <<< 24 ||| BitVec.ofInt 64 vsize⟩ := by
  have : pos ≤ 0x3FFFFFF := BitVec.le_def.2 hp
  rw [fill, if_pos this]

theorem fill_fields (flags : BitVec 32) (pos : BitVec 64) (ksize vsize : Nat)
    (hf : flags.toNat < 2) (hp : pos.toNat < 2 ^ 26) (hk : ksize < 2 ^ 13) (hv : vsize < 2 ^ 24) :
    ∃ n, fill flags pos ksize vsize = .ok n ∧ n.flags.toNat = flags.toNat ∧
      n.pos.toNat = pos.toNat ∧ n.ksize.toNat = ksize ∧ n.vsize.toNat = vsize := by
  have hd := fill_data_toNat flags pos ksize vsize hf hp hk hv
  refine ⟨_, fill_ok _ _ _ _ (by omega), ?_, ?_, ?_, ?_⟩ <;>
    simp only [flags_toNat, pos_toNat, ksize_toNat, vsize_toNat, hd] <;> omega

/-- The leaf codec round trip: in-range fields read back unchanged after `fill`, so the key and
the value sit right after one another at `pos`; and every element word is the `fill` of its
own fields, so the four bit fields are disjoint and cover the word. -/
theorem fill_roundtrip :
    (∀ (flags : BitVec 32) (pos : BitVec 64) (ksize vsize : Nat), flags.toNat < 2 →
      pos.toNat < 2 ^ 26 → ksize < 2 ^ 13 → vsize < 2 ^ 24 →
      ∃ n, fill flags pos ksize vsize = .ok n ∧ n.flags = flags ∧ n.pos.toNat = pos.toNat ∧
        n.ksize.toNat = ksize ∧ n.vsize.toNat = vsize ∧ n.key = (pos.toNat, pos.toNat + ksize) ∧
        n.value = (pos.toNat + ksize, pos.toNat + ksize + vsize)) ∧
    ∀ w : BitVec 64, fill (⟨w⟩ : LeafPageElement).flags ((⟨w⟩ : LeafPageElement).pos.setWidth 64)
      (⟨w⟩ : LeafPageElement).ksize.toNat (⟨w⟩ : LeafPageElement).vsize.toNat = .ok ⟨w⟩ := by
  refine ⟨fun flags pos ksize vsize hf hp hk hv => ?_, fun w => ?_⟩
  · obtain ⟨n, h, h1, h2, h3, h4⟩ := fill_fields flags pos ksize vsize hf hp hk hv
    exact ⟨n, h, BitVec.eq_of_toNat_eq h1, h2, h3, h4, by simp [key, h2, h3],
      by simp [value, h2, h3, h4]⟩
  · have hw := w.isLt
    have hp : ((⟨w⟩ : LeafPageElement).pos.setWidth 64).toNat = w.toNat / 2 ^ 37 % 2 ^ 26 := by
      simp only [BitVec.toNat_setWidth, pos_toNat]; omega
    rw [fill_ok _ _ _ _ (by omega)]
    congr 1; congr 1
    apply BitVec.eq_of_toNat_eq
    rw [fill_data_toNat _ _ _ _ (by simp only [flags_toNat]; omega) (by omega)
      (by simp only [ksize_toNat]; omega) (by simp only [vsize_toNat]; omega)]
    simp only [flags_toNat, hp, ksize_toNat, vsize_toNat]
    omega

theorem fill_roundtrip_small :
    (1 : BitVec 32).toNat < 2 ∧ (5 : BitVec 64).toNat < 2 ^ 26 ∧ 7 < 2 ^ 13 ∧ 9 < 2 ^ 24 ∧
      ∃ n, fill 1 5 7 9 = .ok n ∧ n.flags = 1 ∧ n.pos.toNat = 5 ∧ n.ksize.toNat = 7 ∧
        n.vsize.toNat = 9 ∧ n.key = (5, 5 + 7) ∧ n.value = (5 + 7, 5 + 7 + 9) :=
  ⟨by decide, by decide, by decide, by decide,
    fill_roundtrip.1 1 5 7 9 (by decide) (by decide) (by decide) (by decide)⟩

/-- `fill` with `ksize = 8192` passes its check and reads back as `ksize = 0` with `pos = 1`: the
key size's thirteenth bit is carried into `pos`. -/
theorem fill_ksize_overflow : ∃ n, fill 0 0 8192 0 = .ok n ∧ n.pos = 1 ∧ n.ksize = 0 :=
  ⟨_, fill_ok _ _ _ _ (by decide), by decide, by decide⟩

/-- `fill` fails exactly when `pos` is out of range. When it passes, its element reads back as
the given values exactly when `flags`, `ksize` and `vsize` fit their fields. -/
theorem fill_decodes_iff (flags : BitVec 32) (pos : BitVec 64) (ksize vsize : Nat) :
    ((∃ m, fill flags pos ksize vsize = .error m) ↔ 0x3FFFFFF < pos.toNat) ∧
    ∀ n, fill flags pos ksize vsize = .ok n →
      (n.flags = flags ∧ n.pos.toNat = pos.toNat ∧ n.ksize.toNat = ksize ∧ n.vsize.toNat = vsize ↔
        flags.toNat < 2 ∧ ksize < 2 ^ 13 ∧ vsize < 2 ^ 24) := by
  by_cases hp : pos.toNat ≤ 0x3FFFFFF
  · refine ⟨⟨fun ⟨m, hm⟩ => (by rw [fill_ok _ _ _ _ hp] at hm; cases hm), fun h => by omega⟩,
      fun n hn => ⟨fun ⟨h1, _, h3, h4⟩ => ?_, fun ⟨hf, hk, hv⟩ => ?_⟩⟩
    · have := n.data.isLt
      refine ⟨?_, ?_, ?_⟩
      · rw [← h1, flags_toNat]; omega
      · rw [← h3, ksize_toNat]; omega
      · rw [← h4, vsize_toNat]; omega
    · obtain ⟨n', h', h1, h2, h3, h4⟩ := fill_fields flags pos ksize vsize hf (by omega) hk hv
      obtain rfl : n = n' := Except.ok.inj (hn.symm.trans h')
      exact ⟨BitVec.eq_of_toNat_eq h1, h2, h3, h4⟩
  · have he : fill flags pos ksize vsize =
        .error ("assertion failed: impossible page offset: " ++ toString pos.toNat) := by
      have : ¬ pos ≤ 0x3FFFFFF := fun h => hp (BitVec.le_def.1 h)
      rw [fill, if_neg this]
    exact ⟨⟨fun _ => by omega, fun _ => ⟨_, he⟩⟩, fun n hn => by rw [he] at hn; cases hn⟩

theorem fill_decodes_iff_small :
    ∃ n, fill 1 5 7 9 = .ok n ∧
      (n.flags = 1 ∧ n.pos.toNat = 5 ∧ n.ksize.toNat = 7 ∧ n.vsize.toNat = 9 ↔
        (1 : BitVec 32).toNat < 2 ∧ 7 < 2 ^ 13 ∧ 9 < 2 ^ 24) :=
  ⟨_, fill_ok _ _ _ _ (by decide), (fill_decodes_iff 1 5 7 9).2 _ (fill_ok _ _ _ _ (by decide))⟩

end LeafPageElement

end Bbolt
