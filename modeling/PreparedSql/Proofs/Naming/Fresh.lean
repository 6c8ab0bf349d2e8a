import Mathlib.Data.List.Nodup
import Mathlib.Data.List.Perm.Subperm
import PreparedSql.Naming.Names
import PreparedSql.Proofs.Text.Numerals

/-!
# Fresh aliases

The members of the alias sequence are pairwise different and in lower case already, so
among as many members in a row as there are names taken, and one more, there is a free
one. Hence an alias that is chosen for a table is never taken, whatever was asked for.
-/

namespace PreparedSql

namespace Text

theorem toLower_eq_self {c : Char} (h : c.toNat < 65 ∨ 90 < c.toNat) : c.toLower = c := by
  have hupper : ¬(c.val ≥ 'A'.val ∧ c.val ≤ 'Z'.val) := by
    rintro ⟨hlow, hhigh⟩
    have hlow : 65 ≤ c.toNat := UInt32.le_iff_toNat_le.1 hlow
    have hhigh : c.toNat ≤ 90 := UInt32.le_iff_toNat_le.1 hhigh
    omega
  exact dif_neg hupper

/-- A text of small letters and digits is in lower case. -/
theorem lower_eq_self {s : String}
    (h : ∀ c ∈ s.toList, c.toNat < 128 ∧ (c.toNat < 65 ∨ 90 < c.toNat)) : lower s = s := by
  have hafter (before cs : List Char)
      (h : ∀ c ∈ cs, c.toNat < 128 ∧ (c.toNat < 65 ∨ 90 < c.toNat)) :
      lowerAfter before cs = cs := by
    induction cs generalizing before with
    | nil => rfl
    | cons c cs ih =>
      obtain ⟨hascii, hlow⟩ := h c (by simp)
      have hsigma : c ≠ 'Σ' := by
        rintro rfl
        exact absurd hascii (by decide)
      have hdotted : c ≠ 'İ' := by
        rintro rfl
        exact absurd hascii (by decide)
      rw [lowerAfter, ih _ fun c hc => h c (by simp [hc])]
      simp [hsigma, hdotted, lowerChar_of_lt hascii, toLower_eq_self hlow]
  rw [lower, hafter _ _ h, String.ofList_toList]

end Text

namespace Alias

theorem toNat_letter (n : Nat) : (letter n).toNat = 97 + n % 26 := by
  have hvalid : ('a'.toNat + n % 26).isValidChar := .inl (by
    show 97 + n % 26 < _
    omega)
  rw [letter, Char.ofNat, dif_pos hvalid]
  rfl

theorem toList_nth (n : Nat) : (nth n).toList = letter n :: (suffix n).toList := by
  rw [nth, String.toList_append, String.toList_singleton]
  rfl

theorem suffix_injective {m n : Nat} (hletter : m % 26 = n % 26) (h : suffix m = suffix n) :
    m = n := by
  unfold suffix at h
  split at h <;> split at h
  · omega
  · exact absurd (congrArg String.toList h).symm (Text.numeral_ne_nil _)
  · exact absurd (congrArg String.toList h) (Text.numeral_ne_nil _)
  · have := Text.numeral_injective (congrArg String.toList h)
    omega

theorem nth_injective {m n : Nat} (h : nth m = nth n) : m = n := by
  have hlist : letter m :: (suffix m).toList = letter n :: (suffix n).toList := by
    rw [← toList_nth, ← toList_nth, h]
  obtain ⟨hletter, hsuffix⟩ := List.cons.inj hlist
  have hmod : m % 26 = n % 26 := by
    have := congrArg Char.toNat hletter
    rw [toNat_letter, toNat_letter] at this
    omega
  exact suffix_injective hmod (String.toList_inj.1 hsuffix)

theorem lower_nth (n : Nat) : Text.lower (nth n) = nth n := by
  refine Text.lower_eq_self fun c hc => ?_
  rw [toList_nth] at hc
  rcases List.mem_cons.1 hc with rfl | hc
  · rw [toNat_letter]
    omega
  · unfold suffix at hc
    split at hc
    · simp at hc
    · have hdigit := Text.isDigit_of_mem_numeral hc
      simp only [Char.isDigit, Bool.and_eq_true, decide_eq_true_eq, ge_iff_le] at hdigit
      have hhigh : c.val.toNat ≤ 57 := UInt32.le_iff_toNat_le.1 hdigit.2
      have : c.toNat = c.val.toNat := rfl
      omega

theorem le_firstFree (taken : String → Bool) (count n : Nat) : n ≤ firstFree taken count n := by
  induction count generalizing n with
  | zero => exact Nat.le_refl n
  | succ count ih =>
    unfold firstFree
    split
    · exact Nat.le_of_succ_le (ih (n + 1))
    · exact Nat.le_refl n

/-- The search stops at a free member if there is one within its reach. -/
theorem firstFree_free {taken : String → Bool} {count n i : Nat} (hi : i ≤ count)
    (h : taken (nth (n + i)) = false) : taken (nth (firstFree taken count n)) = false := by
  induction count generalizing n i with
  | zero =>
    obtain rfl : i = 0 := by omega
    exact h
  | succ count ih =>
    rw [firstFree]
    split
    · next htaken =>
      cases i with
      | zero =>
        rw [Nat.add_zero, htaken] at h
        cases h
      | succ i =>
        rw [← Nat.add_assoc, Nat.add_right_comm] at h
        exact ih (Nat.le_of_succ_le_succ hi) h
    · next hfree => simpa using hfree

/-- Not all of more members in a row than there are names can be among the names. -/
theorem exists_free (names : List String) (n : Nat) :
    ∃ i, i ≤ names.length ∧ nth (n + i) ∉ names := by
  by_contra hall
  simp only [not_exists, not_and, Classical.not_not] at hall
  let members := (List.range (names.length + 1)).map fun i => nth (n + i)
  have hnodup : members.Nodup := by
    refine List.nodup_range.map fun i j h => ?_
    have := nth_injective h
    omega
  have hsubset : members ⊆ names := by
    intro name hname
    obtain ⟨i, hi, rfl⟩ := List.mem_map.1 hname
    exact hall i (by simpa [Nat.lt_succ_iff] using hi)
  have hlength := (hnodup.subperm hsubset).length_le
  simp only [members, List.length_map, List.length_range] at hlength
  omega

end Alias

namespace Names

variable {ns : Names} {t : TableLabel}

theorem draw_free (ns : Names) : ns.isTaken ns.draw.1 = false := by
  obtain ⟨i, hi, hfree⟩ := Alias.exists_free ns.taken ns.drawn
  refine Alias.firstFree_free hi ?_
  simpa [isTaken, Alias.lower_nth] using hfree

theorem choose_free (ns : Names) (t : TableLabel) : ns.isTaken (ns.choose t).1 = false := by
  unfold choose
  split
  · next name hname => simpa using List.find?_some hname
  · exact ns.draw_free

theorem choose_keeps (ns : Names) (t : TableLabel) :
    (ns.choose t).2.aliases = ns.aliases ∧ (ns.choose t).2.taken = ns.taken := by
  unfold choose
  split
  · exact ⟨rfl, rfl⟩
  · exact ⟨rfl, rfl⟩

/-- A table keeps the alias it has; a table without one is given one that is free. -/
theorem aliasOf_cases (ns : Names) (t : TableLabel) :
    (∃ name, ns.lookup t.id = some name ∧ ns.aliasOf t = (name, ns)) ∨
      ns.lookup t.id = none ∧ ns.isTaken (ns.aliasOf t).1 = false ∧
        (ns.aliasOf t).2.aliases = ns.aliases ++ [(t.id, (ns.aliasOf t).1)] ∧
        (ns.aliasOf t).2.taken = ns.taken ++ [Text.lower (ns.aliasOf t).1] := by
  cases hlookup : ns.lookup t.id with
  | some name => exact .inl ⟨name, rfl, by simp [aliasOf, hlookup]⟩
  | none =>
    obtain ⟨haliases, htaken⟩ := ns.choose_keeps t
    have hfree := ns.choose_free t
    have hfree' : (ns.choose t).2.isTaken (ns.choose t).1 = false := by
      rw [isTaken, htaken]
      exact hfree
    refine .inr ⟨rfl, ?_⟩
    simp [aliasOf, hlookup, publish, take, hfree, hfree', haliases, htaken]

/-- Once asked for, the alias of a table is visible. -/
theorem lookup_aliasOf (ns : Names) (t : TableLabel) :
    (ns.aliasOf t).2.lookup t.id = some (ns.aliasOf t).1 := by
  rcases ns.aliasOf_cases t with ⟨name, hlookup, heq⟩ | ⟨hlookup, -, haliases, -⟩
  · rw [heq, hlookup]
  · have hnone : ns.aliases.lookup t.id = none := hlookup
    rw [lookup, haliases, List.lookup_append, hnone]
    simp

end Names

end PreparedSql
