import Mathlib.Data.Finset.Card
import Mathlib.Order.Bounds.Basic
import PreparedSql.Proofs.Naming.Fresh

/-!
# The search for a free alias

A table that can have neither the name asked for nor its own is given a member of the alias
sequence: members are drawn until one is free. Nothing in that loop says that it ends, as the names
that are taken are arbitrary and may be just those that come next. It ends because the sequence
never repeats a name, so that each draw in vain uses up another taken name.

`Names.Search` is the loop as it runs, with no bound on its draws. `Names.draw` is bounded by the
number of names taken, and accepts the last member in its reach unseen. Both come to the first free
member, after at most one draw more than names are taken.
-/

namespace PreparedSql

namespace Alias

/-! ## The sequence, round by round -/

def alphabet : List Char :=
  ['a', 'b', 'c', 'd', 'e', 'f', 'g', 'h', 'i', 'j', 'k', 'l', 'm',
    'n', 'o', 'p', 'q', 'r', 's', 't', 'u', 'v', 'w', 'x', 'y', 'z']

/-- The aliases of a round: the alphabet, with the number of the round behind each letter. The first
round has number zero, which is not written. -/
def round (r : Nat) : List String :=
  alphabet.map fun c => String.singleton c ++ if r = 0 then "" else toString r

theorem map_letter_range : (List.range 26).map letter = alphabet := by decide

theorem nth_add {i : Nat} (hi : i < 26) (r : Nat) :
    nth (26 * r + i) = String.singleton (letter i) ++ if r = 0 then "" else toString r := by
  have hletter : letter (26 * r + i) = letter i := by
    rw [letter, letter, Nat.mul_add_mod]
  have hdiv : (26 * r + i) / 26 = r := by omega
  rw [nth, hletter, suffix, hdiv]
  congr 1
  by_cases hr : r = 0
  · rw [if_pos hr, if_pos (by omega)]
  · rw [if_neg hr, if_neg (by omega)]

theorem round_eq (r : Nat) : round r = (List.range 26).map fun i => nth (26 * r + i) := by
  rw [round, ← map_letter_range, List.map_map]
  refine List.map_congr_left fun i hi => ?_
  exact (nth_add (List.mem_range.1 hi) r).symm

/-- The sequence goes through the rounds in order. -/
theorem map_nth_range (rounds : Nat) :
    (List.range (26 * rounds)).map nth = (List.range rounds).flatMap round := by
  induction rounds with
  | zero => rfl
  | succ r ih =>
    have hround : ((List.range 26).map (26 * r + ·)).map nth = round r := by
      rw [round_eq, List.map_map]
      rfl
    rw [Nat.mul_succ, List.range_add, List.map_append, ih, hround, List.range_succ,
      List.flatMap_append, List.flatMap_singleton]

/-! ## The first free member -/

variable {taken : String → Bool} {count n i : Nat}

/-- Every member that the search passes over is taken. -/
theorem taken_of_lt_firstFree (hn : n ≤ i) (hi : i < firstFree taken count n) :
    taken (nth i) = true := by
  induction count generalizing n with
  | zero => exact absurd hi (Nat.not_lt.2 hn)
  | succ count ih =>
    rw [firstFree] at hi
    split at hi
    · next htaken =>
      rcases Nat.eq_or_lt_of_le hn with rfl | hn
      · exact htaken
      · exact ih hn hi
    · exact absurd hi (Nat.not_lt.2 hn)

theorem isLeast_firstFree (hi : i ≤ count) (h : taken (nth (n + i)) = false) :
    IsLeast {m | n ≤ m ∧ taken (nth m) = false} (firstFree taken count n) := by
  refine ⟨⟨le_firstFree taken count n, firstFree_free hi h⟩, ?_⟩
  rintro m ⟨hn, hfree⟩
  by_contra hlt
  rw [taken_of_lt_firstFree hn (Nat.lt_of_not_le hlt)] at hfree
  cases hfree

end Alias

namespace Names

/-! ## The loop -/

/-- One pass of the loop: the next member of the sequence is drawn, and it is the result if it is
free. -/
def attempt (ns : Names) : Option String × Names :=
  let name := Alias.nth ns.drawn
  (if ns.isTaken name then none else some name, { ns with drawn := ns.drawn + 1 })

/-- The loop, started with the names `ns`, ends after some draws with a name, and leaves the names
`ns'`. A loop that runs forever is not related to anything. -/
inductive Search : Names → (draws : Nat) → (name : String) → (ns' : Names) → Prop where
  | found {ns ns' name} : ns.attempt = (some name, ns') → Search ns 1 name ns'
  | again {ns ns' ns'' draws name} :
    ns.attempt = (none, ns') → Search ns' draws name ns'' → Search ns (draws + 1) name ns''

variable {ns ns' ns'' : Names} {t : TableLabel} {draws draws' : Nat} {name name' : String}

theorem attempt_of_free (h : ns.isTaken (Alias.nth ns.drawn) = false) :
    ns.attempt = (some (Alias.nth ns.drawn), { ns with drawn := ns.drawn + 1 }) := by
  simp [attempt, h]

theorem attempt_of_taken (h : ns.isTaken (Alias.nth ns.drawn) = true) :
    ns.attempt = (none, { ns with drawn := ns.drawn + 1 }) := by
  simp [attempt, h]

/-- Each pass draws one member, so the loop comes to a free member that only taken ones precede. -/
theorem search_of_taken (d : Nat)
    (htaken : ∀ i, ns.drawn ≤ i → i < ns.drawn + d → ns.isTaken (Alias.nth i) = true)
    (hfree : ns.isTaken (Alias.nth (ns.drawn + d)) = false) :
    ns.Search (d + 1) (Alias.nth (ns.drawn + d)) { ns with drawn := ns.drawn + d + 1 } := by
  -- The induction is on the taken members ahead; a pass in vain leaves one fewer.
  induction d generalizing ns with
  | zero => exact .found (attempt_of_free hfree)
  | succ d ih =>
    let later : Names := { ns with drawn := ns.drawn + 1 }
    have hplace : later.drawn + d = ns.drawn + (d + 1) := Nat.succ_add_eq_add_succ ns.drawn d
    have hrest : later.Search (d + 1) (Alias.nth (later.drawn + d))
        { later with drawn := later.drawn + d + 1 } := by
      refine ih (fun i hn hi => htaken i (Nat.le_of_succ_le hn) (hplace ▸ hi)) ?_
      rw [hplace]
      exact hfree
    rw [hplace] at hrest
    exact .again (attempt_of_taken (htaken ns.drawn (Nat.le_refl _) (by omega))) hrest

theorem Search.unique (h : ns.Search draws name ns') (h' : ns.Search draws' name' ns'') :
    draws = draws' ∧ name = name' ∧ ns' = ns'' := by
  induction h generalizing draws' with
  | found hfound =>
    cases h' with
    | found hfound' =>
      cases hfound.symm.trans hfound'
      exact ⟨rfl, rfl, rfl⟩
    | again hagain' _ => cases hfound.symm.trans hagain'
  | again hagain _ ih =>
    cases h' with
    | found hfound' => cases hagain.symm.trans hfound'
    | again hagain' hrest' =>
      cases hagain.symm.trans hagain'
      obtain ⟨rfl, rfl, rfl⟩ := ih hrest'
      exact ⟨rfl, rfl, rfl⟩

/-! ## Where the loop ends -/

/-- Names that are taken twice do not put off the next free member. -/
theorem exists_free_within (ns : Names) :
    ∃ i, i ≤ ns.taken.toFinset.card ∧ ns.isTaken (Alias.nth (ns.drawn + i)) = false := by
  obtain ⟨i, hi, hfree⟩ := Alias.exists_free ns.taken.dedup ns.drawn
  refine ⟨i, List.card_toFinset ns.taken ▸ hi, ?_⟩
  simpa [isTaken, Alias.lower_nth] using hfree

/-- The places of the members that may still be drawn and are free. -/
def freePlaces (ns : Names) : Set Nat := {i | ns.drawn ≤ i ∧ ns.isTaken (Alias.nth i) = false}

theorem search_of_isLeast {m : Nat} (h : IsLeast ns.freePlaces m) :
    ns.Search (m + 1 - ns.drawn) (Alias.nth m) { ns with drawn := m + 1 } := by
  obtain ⟨⟨hdrawn, hfree⟩, hleast⟩ := h
  obtain ⟨d, rfl⟩ := Nat.exists_eq_add_of_le hdrawn
  have htaken : ∀ i, ns.drawn ≤ i → i < ns.drawn + d → ns.isTaken (Alias.nth i) = true := by
    intro i hn hi
    by_contra hnot
    exact absurd (hleast ⟨hn, Bool.eq_false_of_not_eq_true hnot⟩) (Nat.not_le.2 hi)
  have hdraws : ns.drawn + d + 1 - ns.drawn = d + 1 := by omega
  rw [hdraws]
  exact search_of_taken d htaken hfree

theorem draws_le_of_isLeast {m : Nat} (h : IsLeast ns.freePlaces m) :
    m + 1 - ns.drawn ≤ ns.taken.toFinset.card + 1 := by
  obtain ⟨i, hi, hfree⟩ := ns.exists_free_within
  have hm : m ≤ ns.drawn + i := h.2 ⟨Nat.le_add_right _ _, hfree⟩
  omega

/-- `draw` stops at the first free member too. -/
theorem exists_draw_eq (ns : Names) :
    ∃ m, IsLeast ns.freePlaces m ∧ ns.draw = (Alias.nth m, { ns with drawn := m + 1 }) := by
  obtain ⟨i, hi, hfree⟩ := ns.exists_free_within
  -- The bound of `draw` counts a name as often as it is listed, so it reaches at least as far.
  have hreach : i ≤ ns.taken.length := hi.trans (List.toFinset_card_le ns.taken)
  exact ⟨_, Alias.isLeast_firstFree hreach hfree, rfl⟩

theorem choose_of_taken (h : ∀ name ∈ ns.candidates t, ns.isTaken name = true) :
    ns.choose t = ns.draw := by
  have hnone : (ns.candidates t).find? (!ns.isTaken ·) = none :=
    List.find?_eq_none.2 fun name hname => by simp [h name hname]
  rw [choose, hnone]

/-- A generated alias is always found, and it is the first free one. Whatever names are taken and
however many members of the sequence were drawn, there is a first member from there on whose lower
case is not taken. The loop ends with it, after at most one draw more than there are different names
taken, and the next member to draw is the one behind it. This is how a table is named that can have
neither the name asked for nor its own. The sequence is made of the rounds `a` to `z`, `a1` to `z1`,
`a2` to `z2` and so on, and has no name twice. -/
theorem first_free_drawn (ns : Names) :
    (∃ m draws, IsLeast {i | ns.drawn ≤ i ∧ Text.lower (Alias.nth i) ∉ ns.taken} m ∧
      draws ≤ ns.taken.toFinset.card + 1 ∧
      (∀ draws' name ns', ns.Search draws' name ns' ↔
        draws' = draws ∧ name = Alias.nth m ∧ ns' = { ns with drawn := m + 1 }) ∧
      ∀ t, (∀ name ∈ ns.candidates t, ns.isTaken name = true) →
        ns.choose t = (Alias.nth m, { ns with drawn := m + 1 })) ∧
      (∀ rounds, (List.range (26 * rounds)).map Alias.nth =
        (List.range rounds).flatMap Alias.round) ∧
      Function.Injective Alias.nth := by
  refine ⟨?_, Alias.map_nth_range, fun i j => Alias.nth_injective⟩
  obtain ⟨m, hleast, hdraw⟩ := ns.exists_draw_eq
  have hsearch := search_of_isLeast hleast
  refine ⟨m, m + 1 - ns.drawn, ?_, draws_le_of_isLeast hleast, ?_, ?_⟩
  · simpa [freePlaces, isTaken] using hleast
  · intro draws' name ns'
    constructor
    · exact fun h => h.unique hsearch
    · rintro ⟨rfl, rfl, rfl⟩
      exact hsearch
  · intro t htaken
    rw [choose_of_taken htaken, hdraw]

/-- All three names that are taken come next in the sequence, and the name asked for and the table's
own are among them. No search among three taken names is longer. -/
theorem first_free_drawn_late :
    let ns : Names := { taken := ["y", "z", "a1"], drawn := 24, aliasing := false }
    let t : TableLabel := ⟨⟨0⟩, some "A1", some "Z"⟩
    IsLeast {i | ns.drawn ≤ i ∧ Text.lower (Alias.nth i) ∉ ns.taken} 27 ∧
      ns.Search 4 "b1" { ns with drawn := 28 } ∧
      4 ≤ ns.taken.toFinset.card + 1 ∧
      (∀ name ∈ ns.candidates t, ns.isTaken name = true) ∧
      ns.choose t = ("b1", { ns with drawn := 28 }) := by
  intro ns t
  obtain ⟨⟨m, draws, hleast, hdraws, hsearch, hchoose⟩, -, -⟩ := first_free_drawn ns
  have hloop : ns.Search 4 "b1" { ns with drawn := 28 } :=
    .again (attempt_of_taken (by decide +kernel)) <|
    .again (attempt_of_taken (by decide +kernel)) <|
    .again (attempt_of_taken (by decide +kernel)) <|
    .found (by decide +kernel)
  obtain ⟨rfl, hname, hnames⟩ := (hsearch _ _ _).1 hloop
  obtain rfl : 27 = m := Nat.succ.inj (congrArg Names.drawn hnames)
  have htaken : ∀ name ∈ ns.candidates t, ns.isTaken name = true :=
    List.all_eq_true.1 (by decide +kernel)
  exact ⟨hleast, hloop, hdraws, htaken, hname ▸ hchoose t htaken⟩

end Names

end PreparedSql
