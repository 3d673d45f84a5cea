/-
The page header of `page.go`: page ids, the four type flags, `typ`, the `fastCheck` consistency
trap, the branch element array and the order `write` sorts dirty pages in. A page is its typed
header and the bytes of its memory from its first byte on; the elements are read out of those
bytes at the offsets `unsafeIndex` computes (amd64: little endian, no padding).
-/
import Mathlib

namespace Bbolt

/-! ## The page header

Page ids (`pgid`) and transaction ids (`txid`) are `uint64` in Go; they are `Nat` here, and the
operations that can wrap take `% 2^64` where the code does them. -/

def pageHeaderSize : Nat := 16

def branchPageElementSize : Nat := 16

def leafPageElementSize : Nat := 8

def branchPageFlag : Nat := 0x01

def leafPageFlag : Nat := 0x02

def metaPageFlag : Nat := 0x04

def freelistPageFlag : Nat := 0x10

/-- The table `fastCheckBits`: the flag values that name exactly one page type. -/
def fastCheckBits (i : Nat) : Bool :=
  i == branchPageFlag || i == leafPageFlag || i == metaPageFlag || i == freelistPageFlag

/-- A page: the header fields `id`, `flags` (`uint16`), `count` (`uint16`) and `overflow`
(`uint32`), and `mem`, the bytes of the page's memory from its first byte, which is what the
element accessors and `write` read. The header is read through the fields and nothing ties
`mem`'s first 16 bytes to them, so the bytes `write` puts at the page's header may disagree with
the fields the model reads. -/
structure Page where
  id : Nat
  flags : Nat
  count : Nat
  overflow : Nat
  mem : Nat → UInt8

/-- The little-endian word of `n` bytes at `off`. -/
def readLE (mem : Nat → UInt8) (off : Nat) : Nat → Nat
  | 0 => 0
  | n + 1 => (mem off).toNat + 256 * readLE mem (off + 1) n

/-! ## `typ` and `fastCheck` -/

/-- `fmt`'s `%x`. -/
def hexString (n : Nat) : String := String.mk (Nat.toDigits 16 n)

/-- `fmt`'s `%02x`: `%x` padded with zeros to two digits. -/
def hexString02 (n : Nat) : String :=
  String.mk (List.replicate (2 - (Nat.toDigits 16 n).length) '0' ++ Nat.toDigits 16 n)

/-- `typ`: the page's type by its first set type flag. -/
def Page.typ (p : Page) : String :=
  if p.flags &&& branchPageFlag ≠ 0 then "branch"
  else if p.flags &&& leafPageFlag ≠ 0 then "leaf"
  else if p.flags &&& metaPageFlag ≠ 0 then "meta"
  else if p.flags &&& freelistPageFlag ≠ 0 then "freelist"
  else "unknown<" ++ hexString02 p.flags ++ ">"

/-- `fastCheck`: panics (`.error`) unless the page names itself `id` and has exactly one type
flag. -/
def Page.fastCheck (p : Page) (id : Nat) : Except String Unit :=
  if p.id ≠ id then
    .error ("Page expected to be: " ++ toString id ++ ", but self identifies as " ++ toString p.id)
  else if p.flags > freelistPageFlag || !fastCheckBits p.flags then
    .error ("page " ++ toString p.id ++ ": has unexpected type/flags: " ++ hexString p.flags)
  else .ok ()

theorem fastCheckBits_iff (f : Nat) :
    (f ≤ freelistPageFlag ∧ fastCheckBits f = true) ↔ f = 1 ∨ f = 2 ∨ f = 4 ∨ f = 16 := by
  simp only [fastCheckBits, branchPageFlag, leafPageFlag, metaPageFlag, freelistPageFlag,
    Bool.or_eq_true, beq_iff_eq]
  omega

/-- A page passes `fastCheck` exactly when it is the page asked for and carries exactly one of
the four type flags. -/
theorem fastCheck_eq_ok (p : Page) (id : Nat) :
    p.fastCheck id = .ok () ↔ p.id = id ∧ (p.flags = 1 ∨ p.flags = 2 ∨ p.flags = 4 ∨ p.flags = 16) := by
  rw [← fastCheckBits_iff]
  unfold Page.fastCheck
  by_cases hid : p.id = id <;> by_cases hf : p.flags ≤ freelistPageFlag ∧ fastCheckBits p.flags = true
  all_goals simp_all [Except.ok.injEq, reduceCtorEq]

/-! ## Branch elements -/

/-- `branchPageElement`: `pos` and `ksize` (`uint32`) and the child `pgid`. -/
structure BranchPageElement where
  pos : Nat
  ksize : Nat
  pgid : Nat
  deriving DecidableEq, Repr

/-- `branchPageElement(index)`: the element at `index` of the array after the header. -/
def Page.branchPageElement (p : Page) (index : Nat) : BranchPageElement :=
  let off := pageHeaderSize + branchPageElementSize * index
  { pos := readLE p.mem off 4, ksize := readLE p.mem (off + 4) 4, pgid := readLE p.mem (off + 8) 8 }

/-- `branchPageElements()`: the `count` elements (`nil` when there are none). -/
def Page.branchPageElements (p : Page) : List BranchPageElement :=
  (List.range p.count).map p.branchPageElement

/-- `branchPageElement.key()`: the key's bytes, as offsets from the element. -/
def BranchPageElement.key (n : BranchPageElement) : Nat × Nat := (n.pos, n.pos + n.ksize)

/-! ## `pages` -/

/-- `sort.Sort(pages)` with `pages.Less` comparing ids. `sort.Sort` does not say in which order
it leaves pages of equal id; this is the stable order. -/
def sortPages (ps : List Page) : List Page := ps.mergeSort fun a b => decide (a.id ≤ b.id)

theorem sortPages_perm (ps : List Page) : List.Perm (sortPages ps) ps := List.mergeSort_perm _ _

theorem sortPages_sorted (ps : List Page) : (sortPages ps).Pairwise fun a b => a.id ≤ b.id := by
  have := @List.sorted_mergeSort _ (fun a b : Page => decide (a.id ≤ b.id))
    (fun a b c hab hbc => by simp at hab hbc ⊢; omega) (fun a b => by simp; omega) ps
  simpa using this

theorem sortPages_lt {ps : List Page} (h : (ps.map (·.id)).Nodup) :
    (sortPages ps).Pairwise fun a b => a.id < b.id := by
  have hn : ((sortPages ps).map (·.id)).Nodup := ((sortPages_perm ps).map _).nodup_iff.2 h
  rw [List.Nodup, List.pairwise_map] at hn
  exact ((sortPages_sorted ps).and hn).imp fun ⟨h1, h2⟩ => Nat.lt_of_le_of_ne h1 h2

end Bbolt
