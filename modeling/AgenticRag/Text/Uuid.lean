import Mathlib.Data.String.Basic
import Mathlib.Tactic

/-!
# Identifiers

Documents, collections, chunks, users and cache entries are all named by
`uuid.UUID`.  Identifiers travel through the graph state and the store payloads
as `str(uuid)`; the model keeps the identifier itself and uses the string only
where the program hashes it.
-/

namespace AgenticRag

/-- `uuid.UUID`: a 128-bit value. -/
structure Uuid where
  val : BitVec 128
  deriving DecidableEq

namespace Uuid

instance : OfNat Uuid n := ⟨⟨BitVec.ofNat 128 n⟩⟩

def hexDigit (digit : ℕ) : Char :=
  "0123456789abcdef".toList.getD digit '0'

/-- The `width` low hexadecimal digits of a value, most significant first. -/
def hexDigits : ℕ → ℕ → List Char
  | 0, _ => []
  | width + 1, value => hexDigits width (value / 16) ++ [hexDigit (value % 16)]

def hex (id : Uuid) : List Char :=
  hexDigits 32 id.val.toNat

/-- `str(uuid)`: 32 hexadecimal digits in groups of 8, 4, 4, 4 and 12. -/
def str (id : Uuid) : String :=
  String.ofList (id.hex.take 8 ++ '-' :: ((id.hex.drop 8).take 4 ++
    '-' :: ((id.hex.drop 12).take 4 ++ '-' :: ((id.hex.drop 16).take 4 ++
      '-' :: id.hex.drop 20))))

private theorem hexDigit_injective_below :
    ∀ left < 16, ∀ right < 16, hexDigit left = hexDigit right → left = right := by
  decide

private theorem hexDigit_ne_below :
    ∀ digit < 16, hexDigit digit ≠ '-' ∧ hexDigit digit ≠ '|' := by
  decide

theorem hexDigits_injective {width left right : ℕ}
    (hleft : left < 16 ^ width) (hright : right < 16 ^ width)
    (heq : hexDigits width left = hexDigits width right) : left = right := by
  induction width generalizing left right with
  | zero =>
      simp only [pow_zero, Nat.lt_one_iff] at hleft hright
      rw [hleft, hright]
  | succ width ih =>
      rw [pow_succ'] at hleft hright
      obtain ⟨hinit, hlast⟩ := List.append_inj' heq rfl
      have hhigh : left / 16 = right / 16 :=
        ih (by omega) (by omega) hinit
      have hlow : left % 16 = right % 16 :=
        hexDigit_injective_below _ (by omega) _ (by omega)
          (List.cons.inj hlast).1
      omega

theorem hexDigits_ne {width value : ℕ} {char : Char}
    (hchar : char ∈ hexDigits width value) : char ≠ '-' ∧ char ≠ '|' := by
  induction width generalizing value with
  | zero => simp [hexDigits] at hchar
  | succ width ih =>
      rcases List.mem_append.mp hchar with hinit | hlast
      · exact ih hinit
      · rw [List.mem_singleton.mp hlast]
        exact hexDigit_ne_below _ (Nat.mod_lt _ (by decide))

theorem hex_injective {left right : Uuid} (heq : left.hex = right.hex) :
    left = right := by
  have hleft : left.val.toNat < 16 ^ 32 :=
    lt_of_lt_of_eq left.val.isLt (by norm_num)
  have hright : right.val.toNat < 16 ^ 32 :=
    lt_of_lt_of_eq right.val.isLt (by norm_num)
  have hval := hexDigits_injective hleft hright heq
  cases left
  cases right
  exact congrArg Uuid.mk (BitVec.eq_of_toNat_eq hval)

/-- Dropping the dashes gives the digits back. -/
theorem str_filter (id : Uuid) :
    id.str.toList.filter (· ≠ '-') = id.hex := by
  have hkeep : ∀ part : List Char, (∀ char ∈ part, char ∈ id.hex) →
      part.filter (· ≠ '-') = part := by
    intro part hpart
    rw [List.filter_eq_self]
    intro char hchar
    simpa using (hexDigits_ne (hpart char hchar)).1
  have htake : ∀ start count, ((id.hex.drop start).take count).filter (· ≠ '-') =
      (id.hex.drop start).take count := fun start count =>
    hkeep _ fun char hchar =>
      List.mem_of_mem_drop (List.mem_of_mem_take hchar)
  have hhead := htake 0 8
  have htail := hkeep (id.hex.drop 20) fun char hchar =>
    List.mem_of_mem_drop hchar
  rw [List.drop_zero] at hhead
  rw [str, String.toList_ofList]
  simp only [List.filter_append, List.filter_cons, hhead, htail, htake 8 4,
    htake 12 4, htake 16 4]
  simp only [ne_eq, not_true_eq_false, decide_false, Bool.false_eq_true,
    if_false]
  have hsplit : ∀ start count, (id.hex.drop start).take count ++
      id.hex.drop (start + count) = id.hex.drop start := by
    intro start count
    rw [← List.drop_drop]
    exact List.take_append_drop _ _
  rw [hsplit 16 4, hsplit 12 4, hsplit 8 4]
  exact List.take_append_drop _ _

theorem str_injective : Function.Injective str := by
  intro left right heq
  apply hex_injective
  rw [← str_filter left, ← str_filter right, heq]

/-- The strings have fixed width, so `sorted` orders them by value. -/
instance : LinearOrder Uuid where
  le left right := left.val.toNat ≤ right.val.toNat
  le_refl _ := Nat.le_refl _
  le_trans _ _ _ := Nat.le_trans
  le_antisymm left right hle hge := by
    cases left
    cases right
    exact congrArg Uuid.mk (BitVec.eq_of_toNat_eq (Nat.le_antisymm hle hge))
  le_total left right := Nat.le_total left.val.toNat right.val.toNat
  toDecidableLE left right := Nat.decLe left.val.toNat right.val.toNat
  toDecidableEq := instDecidableEqUuid

theorem bar_notMem_str (id : Uuid) : '|' ∉ id.str.toList := by
  intro hmem
  have hhex : '|' ∈ id.hex := by
    rw [← str_filter]
    exact List.mem_filter.mpr ⟨hmem, by decide⟩
  exact (hexDigits_ne hhex).2 rfl

theorem str_ne_empty (id : Uuid) : id.str.toList ≠ [] := by
  simp [str]

end Uuid

end AgenticRag
