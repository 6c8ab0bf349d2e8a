import Mathlib.Data.List.Nodup
import PreparedSql.Store

/-!
# Stores are partial maps

To whoever calls it, a store is a partial map from keys to templates together with two counts.
`Shelf` is that map, without slots: a request for a key that is stored is answered at once, and
any other request builds one statement and keeps its template if there is one. Whatever calls
are made, by whichever compilers, the store and the shelf do the same: they build the same
statements at the same calls, give the same answers, and end up alike.

Building is an action of any monad. A request that builds nothing has no effect there, so the
equality of the two runs says how often and when statements are built.
-/

namespace PreparedSql

variable {κ : Type} [DecidableEq κ]

/-! ## Slots -/

namespace Slots

variable {slots : Slots κ} {key : κ} {prepared : Prepared}

theorem lookup_eq_some_iff {entries : List (κ × Option Prepared)}
    (h : (entries.map Prod.fst).Nodup) {content : Option Prepared} :
    entries.lookup key = some content ↔ (key, content) ∈ entries := by
  induction entries with
  | nil => simp
  | cons slot entries ih =>
    obtain ⟨k, c⟩ := slot
    obtain ⟨hk, hentries⟩ := List.nodup_cons.1 h
    by_cases heq : key = k
    · subst heq
      have hnot : (key, content) ∉ entries := fun hin => hk (List.mem_map.2 ⟨_, hin, rfl⟩)
      simp [hnot, eq_comm]
    · have hne : (key == k) = false := beq_eq_false_iff_ne.2 heq
      simp [List.lookup_cons, hne, heq, ih hentries]

theorem find?_eq_some_iff :
    slots.find? key = some prepared ↔ (key, some prepared) ∈ slots.entries := by
  rw [find?, Option.join_eq_some_iff, lookup_eq_some_iff slots.distinct]

theorem mem_keys_reserve (slots : Slots κ) (key : κ) :
    key ∈ (slots.reserve key).entries.map Prod.fst := by
  unfold reserve
  split
  · assumption
  · simp

/-- An open slot is not found. -/
theorem find?_reserve (slots : Slots κ) (key : κ) :
    (slots.reserve key).find? = slots.find? := by
  funext key'
  refine Option.ext fun prepared => ?_
  rw [find?_eq_some_iff, find?_eq_some_iff]
  unfold reserve
  split
  · rfl
  · simp

theorem find?_put (h : key ∈ slots.entries.map Prod.fst) (prepared : Prepared) :
    (slots.put key prepared).find? = Function.update slots.find? key (some prepared) := by
  obtain ⟨slot, hslot, rfl⟩ := List.mem_map.1 h
  funext key'
  refine Option.ext fun found => ?_
  rw [find?_eq_some_iff, put, List.mem_map]
  by_cases heq : key' = slot.1
  · subst heq
    rw [Function.update_self]
    constructor
    · rintro ⟨old, -, hold⟩
      split at hold
      · exact (Prod.mk.inj hold).2
      · next hne => exact absurd (congrArg Prod.fst hold) hne
    · rintro ⟨⟩
      exact ⟨slot, hslot, if_pos rfl⟩
  · rw [Function.update_of_ne heq, find?_eq_some_iff]
    constructor
    · rintro ⟨old, hin, hold⟩
      split at hold
      · exact absurd (congrArg Prod.fst hold).symm heq
      · exact hold ▸ hin
    · intro hin
      exact ⟨_, hin, if_neg heq⟩

theorem find?_withdraw (slots : Slots κ) (key : κ) :
    (slots.withdraw key).find? = slots.find? := by
  funext key'
  refine Option.ext fun prepared => ?_
  rw [find?_eq_some_iff, find?_eq_some_iff]
  simp [withdraw]

theorem filled_reserve (slots : Slots κ) (key : κ) :
    (slots.reserve key).filled = slots.filled := by
  unfold reserve
  split
  · rfl
  · simp [filled]

theorem filled_withdraw (slots : Slots κ) (key : κ) :
    (slots.withdraw key).filled = slots.filled := by
  rw [filled, withdraw, List.countP_filter, filled]
  congr 1
  funext slot
  cases slot.2.isSome <;> simp

theorem map_of_notMem {entries : List (κ × Option Prepared)}
    (h : key ∉ entries.map Prod.fst) (prepared : Prepared) :
    entries.map (fun slot => if slot.1 = key then (key, some prepared) else slot) = entries := by
  refine (List.map_congr_left fun slot hslot => if_neg fun heq => ?_).trans (List.map_id' entries)
  exact h (heq ▸ List.mem_map_of_mem hslot)

/-- Filling an open slot makes one more template. -/
theorem filled_put (hkey : key ∈ slots.entries.map Prod.fst) (hopen : slots.find? key = none)
    (prepared : Prepared) : (slots.put key prepared).filled = slots.filled + 1 := by
  have hslot : (key, none) ∈ slots.entries := by
    obtain ⟨⟨_, content⟩, hslot, rfl⟩ := List.mem_map.1 hkey
    cases content with
    | none => exact hslot
    | some found =>
      rw [find?_eq_some_iff.2 hslot] at hopen
      cases hopen
  obtain ⟨before, after, hentries⟩ := List.append_of_mem hslot
  have hdistinct := slots.distinct
  rw [hentries, List.map_append, List.map_cons, List.nodup_middle, List.nodup_cons,
    List.mem_append, not_or] at hdistinct
  obtain ⟨⟨hbefore, hafter⟩, -⟩ := hdistinct
  have hput : (slots.put key prepared).entries = before ++ (key, some prepared) :: after := by
    simp [put, hentries, map_of_notMem hbefore, map_of_notMem hafter]
  rw [filled, filled, hput, hentries, List.countP_append, List.countP_append,
    List.countP_cons_of_pos rfl, List.countP_cons_of_neg (by simp), Nat.add_assoc]

end Slots

/-! ## The map that a store is -/

/-- A partial map from keys to templates, and what has been asked of it. -/
structure Shelf (κ : Type) where
  id : Nat
  stored : κ → Option Prepared := fun _ => none
  /-- The number of keys stored since the map was last cleared. -/
  size : Nat := 0
  /-- The number of statements built. -/
  builds : Nat := 0
  /-- The number of requests, answered from the map or not. -/
  requests : Nat := 0

/-- The map that a store is seen as. -/
def Store.shelf (s : Store κ) : Shelf κ := ⟨s.id, s.get?, s.size, s.misses, s.hits + s.misses⟩

/-- A call to a store, made through an engine by the compiler that it has. -/
inductive Call (κ : Type) (m : Type → Type) where
  | prepare (c : Compiler) (key : κ) (build : m Statement)
  | run (c : Compiler) (key : κ) (build : m Statement) (a : Arguments)
  | runInto (c : Compiler) (key : κ) (build : m Statement) (a : Arguments) (sink : Sink)
  | get (key : κ)
  | clear

inductive Answer where
  | prepared (result : Except Failure Prepared)
  | filled (result : Except Failure Sql)
  | filledInto (result : Except Failure String × Sink)
  | found (prepared : Option Prepared)
  | cleared

section Calls

variable {m : Type → Type} [Monad m]

/-- The answer of a store to a call, and the store after it. -/
def Store.answer (s : Store κ) : Call κ m → m (Answer × Store κ)
  | .prepare c key build => do
    let r ← c.prepareWith s key build
    return (.prepared r.1, r.2)
  | .run c key build a => do
    let r ← c.runWith s key build a
    return (.filled r.1, r.2)
  | .runInto c key build a sink => do
    let r ← c.runIntoWith s key build a sink
    return (.filledInto r.1, r.2)
  | .get key => return (.found (s.get? key), s)
  | .clear => return (.cleared, s.clear)

/-- The answers to calls in order. -/
def Store.answerAll (s : Store κ) : List (Call κ m) → m (List Answer × Store κ)
  | [] => return ([], s)
  | call :: calls => do
    let first ← s.answer call
    let rest ← first.2.answerAll calls
    return (first.1 :: rest.1, rest.2)

/-- An action that also counts itself. -/
def counting {α : Type} (build : m α) : StateT Nat m α := fun count =>
  (fun x => (x, count + 1)) <$> build

/-- A call whose build is counted. -/
def Call.counted : Call κ m → Call κ (StateT Nat m)
  | .prepare c key build => .prepare c key (counting build)
  | .run c key build a => .run c key (counting build) a
  | .runInto c key build a sink => .runInto c key (counting build) a sink
  | .get key => .get key
  | .clear => .clear

namespace Shelf

/-- A request whose key is not stored: what was built is kept, unless it failed. -/
def keep (shelf : Shelf κ) (key : κ) : Except Failure Template →
    Except Failure Prepared × Shelf κ
  | .ok template =>
    let prepared : Prepared := ⟨(shelf.id, shelf.builds), template⟩
    (.ok prepared,
      { shelf with
        stored := Function.update shelf.stored key (some prepared)
        size := shelf.size + 1
        builds := shelf.builds + 1
        requests := shelf.requests + 1 })
  | .error f =>
    (.error f, { shelf with builds := shelf.builds + 1, requests := shelf.requests + 1 })

/-- A key that is stored is answered at once; for another, one statement is built. -/
def request (shelf : Shelf κ) (c : Compiler) (key : κ) (build : m Statement) :
    m (Except Failure Prepared × Shelf κ) :=
  match shelf.stored key with
  | some prepared => return (.ok prepared, { shelf with requests := shelf.requests + 1 })
  | none => do
    let statement ← build
    return shelf.keep key (c.prepare statement)

/-- What is left to do with a template that was asked for. -/
def fill (result : Except Failure Prepared) (a : Arguments) : Except Failure Sql :=
  result.bind fun prepared => prepared.template.fill a

def fillInto (result : Except Failure Prepared) (a : Arguments) (sink : Sink) :
    Except Failure String × Sink :=
  match result with
  | .ok prepared => prepared.template.fillInto a sink
  | .error f => (.error f, sink)

/-- Filling takes the template as it is stored, and whether it succeeds or not changes nothing
in the map. -/
def answer (shelf : Shelf κ) : Call κ m → m (Answer × Shelf κ)
  | .prepare c key build => do
    let r ← shelf.request c key build
    return (.prepared r.1, r.2)
  | .run c key build a => do
    let r ← shelf.request c key build
    return (.filled (fill r.1 a), r.2)
  | .runInto c key build a sink => do
    let r ← shelf.request c key build
    return (.filledInto (fillInto r.1 a sink), r.2)
  | .get key => return (.found (shelf.stored key), shelf)
  | .clear => return (.cleared, { shelf with stored := fun _ => none, size := 0 })

def answerAll (shelf : Shelf κ) : List (Call κ m) → m (List Answer × Shelf κ)
  | [] => return ([], shelf)
  | call :: calls => do
    let first ← shelf.answer call
    let rest ← first.2.answerAll calls
    return (first.1 :: rest.1, rest.2)

/-- The size is the number of keys that have a template. -/
def Counted (shelf : Shelf κ) : Prop :=
  ∃ keys : List κ, keys.Nodup ∧ keys.length = shelf.size ∧
    ∀ key, key ∈ keys ↔ (shelf.stored key).isSome = true

end Shelf

/-! ## The store does what the map does -/

variable [LawfulMonad m]

/-- What a caller sees of a store: its answer, and the map that it has become. -/
def Store.seen {α : Type} (r : α × Store κ) : α × Shelf κ := (r.1, r.2.shelf)

theorem Store.shelf_hit (s : Store κ) {key : κ} {prepared : Prepared}
    (h : (s.slots.reserve key).find? key = some prepared) :
    (s.hit h).shelf = { s.shelf with requests := s.shelf.requests + 1 } := by
  have hget : (s.hit h).get? = s.get? := s.slots.find?_reserve key
  have hsize : (s.hit h).size = s.size := s.slots.filled_reserve key
  rw [Store.shelf, hget, hsize]
  simp only [Store.hit, Store.shelf, Nat.add_right_comm]

/-- A slot that was opened for a request is filled, which adds its key to the map, or withdrawn,
which leaves the map alone. -/
theorem Store.seen_miss (s : Store κ) {key : κ} (h : s.get? key = none)
    (built : Except Failure Template) :
    Store.seen (s.miss key built) = s.shelf.keep key built := by
  have hkey := s.slots.mem_keys_reserve key
  have hfind := s.slots.find?_reserve key
  cases built with
  | ok template =>
    let prepared : Prepared := ⟨(s.id, s.misses), template⟩
    have hget : (s.miss key (.ok template)).2.get? =
        Function.update s.get? key (some prepared) :=
      (Slots.find?_put hkey prepared).trans (by rw [hfind]; rfl)
    have hsize : (s.miss key (.ok template)).2.size = s.size + 1 :=
      (Slots.filled_put hkey ((congrFun hfind key).trans h) prepared).trans
        (by rw [s.slots.filled_reserve]; rfl)
    rw [Store.seen, Store.shelf, hget, hsize]
    rfl
  | error f =>
    have hget : (s.miss key (.error f)).2.get? = s.get? :=
      ((s.slots.reserve key).find?_withdraw key).trans hfind
    have hsize : (s.miss key (.error f)).2.size = s.size :=
      ((s.slots.reserve key).filled_withdraw key).trans (s.slots.filled_reserve key)
    rw [Store.seen, Store.shelf, hget, hsize]
    rfl

/-! A request opens a slot, and fills it or withdraws it. -/

omit [LawfulMonad m] in
theorem Compiler.prepareWith_of_some (c : Compiler) {s : Store κ} {key : κ}
    {prepared : Prepared} (h : (s.slots.reserve key).find? key = some prepared)
    (build : m Statement) : c.prepareWith s key build = pure (.ok prepared, s.hit h) := by
  unfold prepareWith Store.fetch
  split
  · next h' =>
    obtain rfl := Option.some.inj (h.symm.trans h')
    rfl
  · next h' => cases h.symm.trans h'

theorem Compiler.prepareWith_of_none (c : Compiler) {s : Store κ} {key : κ}
    (h : (s.slots.reserve key).find? key = none) (build : m Statement) :
    c.prepareWith s key build = (fun statement => s.miss key (c.prepare statement)) <$> build := by
  unfold prepareWith Store.fetch
  split
  · next h' => cases h.symm.trans h'
  · rw [bind_map_left, map_eq_pure_bind]

theorem Store.seen_prepareWith (s : Store κ) (c : Compiler) (key : κ)
    (build : m Statement) :
    Store.seen <$> c.prepareWith s key build = s.shelf.request c key build := by
  have hfind := congrFun (s.slots.find?_reserve key) key
  cases hslot : (s.slots.reserve key).find? key with
  | some prepared =>
    have hstored : s.shelf.stored key = some prepared := hfind.symm.trans hslot
    simp only [c.prepareWith_of_some hslot, map_pure, Store.seen, s.shelf_hit, Shelf.request,
      hstored]
  | none =>
    have hstored : s.shelf.stored key = none := hfind.symm.trans hslot
    rw [c.prepareWith_of_none hslot, Functor.map_map, Shelf.request, hstored, map_eq_pure_bind]
    simp only [s.seen_miss hstored]

/-- The count of builds goes along with the count of misses. -/
theorem Store.run_prepareWith_counting (s : Store κ) (c : Compiler) (key : κ)
    (build : m Statement) :
    (c.prepareWith s key (counting build)).run s.misses =
      (fun r => (r, r.2.misses)) <$> c.prepareWith s key build := by
  cases hslot : (s.slots.reserve key).find? key with
  | some prepared =>
    simp only [c.prepareWith_of_some hslot, StateT.run_pure, map_pure]
    rfl
  | none =>
    have hmisses (built : Except Failure Template) :
        (s.miss key built).2.misses = s.misses + 1 := by
      cases built <;> rfl
    simp only [c.prepareWith_of_none hslot, StateT.run_map, Functor.map_map, hmisses]
    simp [counting, StateT.run]

/-! Filling the template that was asked for comes after the request and leaves the store. -/

theorem Compiler.runWith_eq (c : Compiler) (s : Store κ) (key : κ) (build : m Statement)
    (a : Arguments) :
    c.runWith s key build a = (fun r => (Shelf.fill r.1 a, r.2)) <$> c.prepareWith s key build := by
  rw [runWith, map_eq_pure_bind]
  refine bind_congr fun r => ?_
  obtain ⟨_ | _, _⟩ := r <;> rfl

theorem Compiler.runIntoWith_eq (c : Compiler) (s : Store κ) (key : κ)
    (build : m Statement) (a : Arguments) (sink : Sink) :
    c.runIntoWith s key build a sink =
      (fun r => (Shelf.fillInto r.1 a sink, r.2)) <$> c.prepareWith s key build := by
  rw [runIntoWith, map_eq_pure_bind]
  refine bind_congr fun r => ?_
  obtain ⟨_ | _, _⟩ := r <;> rfl

/-- One call is answered alike, and leaves the store and the map alike. -/
theorem Store.seen_answer (s : Store κ) (call : Call κ m) :
    Store.seen <$> s.answer call = s.shelf.answer call := by
  cases call with
  | prepare c key build =>
    simp only [Store.answer, Shelf.answer, ← s.seen_prepareWith, map_bind, map_pure, bind_map_left]
    rfl
  | run c key build a =>
    simp only [Store.answer, Shelf.answer, ← s.seen_prepareWith, c.runWith_eq, map_bind, map_pure,
      bind_map_left]
    rfl
  | runInto c key build a sink =>
    simp only [Store.answer, Shelf.answer, ← s.seen_prepareWith, c.runIntoWith_eq, map_bind,
      map_pure, bind_map_left]
    rfl
  | get key => simp only [Store.answer, Shelf.answer, map_pure]; rfl
  | clear => simp only [Store.answer, Shelf.answer, map_pure]; rfl

/-- So are any calls. -/
theorem Store.seen_answerAll (s : Store κ) (calls : List (Call κ m)) :
    Store.seen <$> s.answerAll calls = s.shelf.answerAll calls := by
  induction calls generalizing s with
  | nil => simp only [Store.answerAll, Shelf.answerAll, map_pure]; rfl
  | cons call calls ih =>
    simp only [Store.answerAll, Shelf.answerAll, map_bind, map_pure, ← s.seen_answer,
      bind_map_left]
    refine bind_congr fun first => ?_
    have hrest : (Store.seen first).2.answerAll calls = Store.seen <$> first.2.answerAll calls :=
      (ih first.2).symm
    rw [hrest, bind_map_left]
    rfl

theorem Store.run_answer_counted (s : Store κ) (call : Call κ m) :
    (s.answer call.counted).run s.misses = (fun r => (r, r.2.misses)) <$> s.answer call := by
  cases call with
  | prepare c key build =>
    simp only [Call.counted, Store.answer, StateT.run_bind, StateT.run_pure,
      s.run_prepareWith_counting, map_bind, map_pure, bind_map_left]
  | run c key build a =>
    simp only [Call.counted, Store.answer, c.runWith_eq, StateT.run_bind, StateT.run_pure,
      s.run_prepareWith_counting, map_bind, map_pure, bind_map_left]
  | runInto c key build a sink =>
    simp only [Call.counted, Store.answer, c.runIntoWith_eq, StateT.run_bind, StateT.run_pure,
      s.run_prepareWith_counting, map_bind, map_pure, bind_map_left]
  | get key => simp only [Call.counted, Store.answer, StateT.run_pure, map_pure]
  | clear => simp only [Call.counted, Store.answer, StateT.run_pure, map_pure]; rfl

theorem Store.run_answerAll_counted (s : Store κ) (calls : List (Call κ m)) :
    (s.answerAll (calls.map Call.counted)).run s.misses =
      (fun r => (r, r.2.misses)) <$> s.answerAll calls := by
  induction calls generalizing s with
  | nil => simp only [List.map_nil, Store.answerAll, StateT.run_pure, map_pure]
  | cons call calls ih =>
    simp only [List.map_cons, Store.answerAll, StateT.run_bind, StateT.run_pure,
      s.run_answer_counted, map_bind, map_pure, bind_map_left, ih]

/-- No slot is open between calls, so the slots are the keys that have a template. -/
theorem Store.counted (s : Store κ) : s.shelf.Counted := by
  refine ⟨s.slots.entries.map Prod.fst, s.slots.distinct, ?_, fun key => ?_⟩
  · rw [List.length_map]
    exact (List.countP_eq_length.2 s.settled).symm
  · rw [List.mem_map, Option.isSome_iff_exists]
    constructor
    · rintro ⟨⟨_, content⟩, hslot, rfl⟩
      obtain ⟨prepared, rfl⟩ := Option.isSome_iff_exists.1 (s.settled _ hslot)
      exact ⟨prepared, Slots.find?_eq_some_iff.2 hslot⟩
    · rintro ⟨prepared, hfound⟩
      exact ⟨_, Slots.find?_eq_some_iff.1 hfound, rfl⟩

/-- A store answers any calls as a partial map from keys to templates does, and its size and
counts are those of the map. It misses as often as a statement is built. -/
theorem Store.transparent (id : Nat) (calls : List (Call κ m)) :
    Store.seen <$> Store.answerAll { id := id } calls = Shelf.answerAll { id := id } calls ∧
      (Store.answerAll { id := id } (calls.map Call.counted)).run 0 =
        (fun r => (r, r.2.misses)) <$> Store.answerAll { id := id } calls ∧
      ∀ s : Store κ, s.shelf.Counted :=
  ⟨Store.seen_answerAll { id := id } calls, Store.run_answerAll_counted { id := id } calls,
    Store.counted⟩

end Calls

/-- A statement that cannot be compiled is not kept. The next one is, for both compilers and
even if it cannot be filled, until it is cleared. Each build counts itself. -/
theorem Store.transparent_retried :
    let build (e : Expr) : StateM Nat Statement := fun count =>
      (.query (.ofBody (.select { Select.empty with projection := [⟨e, none⟩] })), count + 1)
    let c : Compiler := ⟨.sqlite, {}⟩
    let c' : Compiler := ⟨.postgresql, {}⟩
    let calls : List (Call Fingerprint (StateM Nat)) :=
      [.prepare c ⟨7⟩ (build (.column ⟨0⟩ "id")), .prepare c ⟨7⟩ (build (.param ⟨0⟩)),
        .run c' ⟨7⟩ (build (.value .null)) {}, .get ⟨7⟩, .clear,
        .runInto c' ⟨7⟩ (build (.value .null)) {} (.list [])]
    let r := (Store.answerAll { id := 0 } calls).run 0
    (r.2 = 3 ∧ r.1.2.misses = 3 ∧ r.1.2.hits = 1 ∧ r.1.2.size = 1) ∧
      Store.seen <$> Store.answerAll { id := 0 } calls = Shelf.answerAll { id := 0 } calls ∧
      (Store.answerAll { id := 0 } (calls.map Call.counted)).run 0 =
        (fun r => (r, r.2.misses)) <$> Store.answerAll { id := 0 } calls ∧
      ∀ s : Store, s.shelf.Counted := by
  intro build c c' calls r
  exact ⟨by decide +kernel, Store.transparent 0 calls⟩

end PreparedSql
