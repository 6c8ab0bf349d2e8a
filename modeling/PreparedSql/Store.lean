import PreparedSql.Compiler
import PreparedSql.Fingerprint
import PreparedSql.Template.Fill

/-!
# Stores

A store keeps prepared templates, so that a statement is compiled once however
often it is executed. Whoever asks for a key that is stored gets the stored
template, without a statement being built. A statement that fails to
compile leaves no entry. Requests are counted; the counts outlive the entries.

A slot is opened for a key before the statement is built, and is taken away again if
there is nothing to put into it. Building may have effects of its own, so it is an
action of any monad, and its effects show whether and when it takes place.
-/

namespace PreparedSql

/-- A template as it was handed out: two handles are the same exactly when they
come from the same compilation. -/
structure Prepared where
  /-- The store that asked for the compilation, and which of its builds it was. -/
  origin : Nat × Nat
  template : Template
deriving DecidableEq, Repr

def Prepared.same (a b : Prepared) : Bool := a.origin == b.origin

/-- Places for templates, at most one for a key. A slot may be open, with nothing in it. -/
structure Slots (κ : Type) where
  entries : List (κ × Option Prepared) := []
  distinct : (entries.map Prod.fst).Nodup := by simp
deriving DecidableEq, Repr

section Keys

variable {κ : Type} [DecidableEq κ]

namespace Slots

variable (slots : Slots κ) (key : κ)

/-- The template in the slot of a key. -/
def find? : Option Prepared := (slots.entries.lookup key).join

/-- The number of templates; open slots do not count. -/
def filled : Nat := slots.entries.countP (·.2.isSome)

/-- Gives the key an open slot, unless it has a slot. -/
def reserve : Slots κ :=
  if h : key ∈ slots.entries.map Prod.fst then slots
  else
    { entries := slots.entries ++ [(key, none)]
      distinct := by
        rw [List.map_append]
        exact List.nodup_append.2 ⟨slots.distinct, by simp, by
          rintro _ hin _ (_ | ⟨_, ⟨⟩⟩) rfl
          exact h hin⟩ }

/-- Puts a template into the slot of a key, if it has one. -/
def put (prepared : Prepared) : Slots κ where
  entries := slots.entries.map fun slot => if slot.1 = key then (key, some prepared) else slot
  distinct := by
    have hkeys : (fun slot : κ × Option Prepared =>
        (if slot.1 = key then (key, some prepared) else slot).1) = Prod.fst := by
      funext slot
      split <;> simp_all
    rw [List.map_map, Function.comp_def, hkeys]
    exact slots.distinct

/-- Takes the slot of a key away, unless it is filled. -/
def withdraw : Slots κ where
  entries := slots.entries.filter fun slot => slot.1 != key || slot.2.isSome
  distinct := slots.distinct.sublist (List.filter_sublist.map _)

/-- No slot is open. -/
def Settled : Prop := ∀ slot ∈ slots.entries, slot.2.isSome = true

end Slots

namespace Slots.Settled

variable {slots : Slots κ} {key : κ} (h : slots.Settled)

include h

/-- A slot that is found filled was not opened just now. -/
theorem reserve {prepared : Prepared} (hfound : (slots.reserve key).find? key = some prepared) :
    (slots.reserve key).Settled := by
  unfold Slots.reserve at hfound ⊢
  split
  · exact h
  · next hnew =>
    rw [dif_neg hnew] at hfound
    have hnone : slots.entries.lookup key = none :=
      List.lookup_eq_none_iff.2 fun slot hslot =>
        bne_iff_ne.2 fun heq => hnew (heq ▸ List.mem_map_of_mem hslot)
    simp [find?, List.lookup_append, hnone] at hfound

/-- The slot that was opened is the only one that may be open. -/
theorem isSome_of_mem_reserve {slot : κ × Option Prepared}
    (hslot : slot ∈ (slots.reserve key).entries) : slot.1 = key ∨ slot.2.isSome = true := by
  unfold Slots.reserve at hslot
  split at hslot
  · exact .inr (h slot hslot)
  · rcases List.mem_append.1 hslot with hslot | hslot
    · exact .inr (h slot hslot)
    · exact .inl (by rw [List.mem_singleton.1 hslot])

theorem put (prepared : Prepared) : ((slots.reserve key).put key prepared).Settled := by
  intro slot hslot
  obtain ⟨old, hold, rfl⟩ := List.mem_map.1 hslot
  split
  · rfl
  · next hne => exact (h.isSome_of_mem_reserve hold).resolve_left hne

theorem withdraw : ((slots.reserve key).withdraw key).Settled := by
  intro slot hslot
  obtain ⟨hold, hkept⟩ := List.mem_filter.1 hslot
  rcases h.isSome_of_mem_reserve hold with heq | hsome
  · simpa [heq] using hkept
  · exact hsome

end Slots.Settled

end Keys

/-- Templates under keys, which are fingerprints unless a program has keys of its own. Between
calls no slot is open. -/
structure Store (κ : Type := Fingerprint) where
  id : Nat
  slots : Slots κ := {}
  settled : slots.Settled := by simp [Slots.Settled]
  hits : Nat := 0
  misses : Nat := 0
deriving DecidableEq, Repr

namespace Store

variable {κ : Type}

def size (s : Store κ) : Nat := s.slots.filled

def isEmpty (s : Store κ) : Bool := s.size == 0

/-- Drops all entries; the counts stay. -/
def clear (s : Store κ) : Store κ :=
  { id := s.id, hits := s.hits, misses := s.misses }

/-- How a store is shown. -/
def text (s : Store κ) : String :=
  "TemplateCache \x7b hits: " ++ toString s.hits ++ ", misses: " ++ toString s.misses ++ ", .. \x7d"

variable [DecidableEq κ]

def get? (s : Store κ) (key : κ) : Option Prepared := s.slots.find? key

/-- A request found its key's slot filled. -/
def hit (s : Store κ) {key : κ} {prepared : Prepared}
    (h : (s.slots.reserve key).find? key = some prepared) : Store κ :=
  { s with slots := s.slots.reserve key, settled := s.settled.reserve h, hits := s.hits + 1 }

/-- A request found its key's slot open. What was built for it is put there; if that
failed, the slot is withdrawn. -/
def miss (s : Store κ) (key : κ) : Except Failure Template →
    Except Failure Prepared × Store κ
  | .ok template =>
    let prepared : Prepared := ⟨(s.id, s.misses), template⟩
    (.ok prepared,
      { s with
        slots := (s.slots.reserve key).put key prepared
        settled := s.settled.put prepared
        misses := s.misses + 1 })
  | .error f =>
    (.error f,
      { s with
        slots := (s.slots.reserve key).withdraw key
        settled := s.settled.withdraw
        misses := s.misses + 1 })

/-- The template under a key. If there is none, a template is built and, if that
succeeds, kept. -/
def fetch {m : Type → Type} [Monad m] (s : Store κ) (key : κ)
    (build : m (Except Failure Template)) : m (Except Failure Prepared × Store κ) :=
  match h : (s.slots.reserve key).find? key with
  | some prepared => return (.ok prepared, s.hit h)
  | none => do
    let built ← build
    return s.miss key built

end Store

namespace Compiler

variable {κ : Type} [DecidableEq κ]

section Building

variable {m : Type → Type} [Monad m]

/-- The prepared form of a statement, from the store if it is there. Only if it is
not, the statement is built. -/
def prepareWith (c : Compiler) (s : Store κ) (key : κ) (build : m Statement) :
    m (Except Failure Prepared × Store κ) :=
  s.fetch key (c.prepare <$> build)

/-- Prepares a statement and fills it for one execution. -/
def runWith (c : Compiler) (s : Store κ) (key : κ) (build : m Statement) (a : Arguments) :
    m (Except Failure Sql × Store κ) := do
  match ← c.prepareWith s key build with
  | (.ok prepared, s) => return (prepared.template.fill a, s)
  | (.error f, s) => return (.error f, s)

/-- Prepares a statement and fills it, appending the bound values to a sink. -/
def runIntoWith (c : Compiler) (s : Store κ) (key : κ) (build : m Statement)
    (a : Arguments) (sink : Sink) : m ((Except Failure String × Sink) × Store κ) := do
  match ← c.prepareWith s key build with
  | (.ok prepared, s) => return (prepared.template.fillInto a sink, s)
  | (.error f, s) => return ((.error f, sink), s)

end Building

/-! The same for a statement that is at hand. -/

def prepareIn (c : Compiler) (s : Store κ) (key : κ) (statement : Statement) :
    Except Failure Prepared × Store κ :=
  Id.run (c.prepareWith s key (pure statement))

def runIn (c : Compiler) (s : Store κ) (key : κ) (statement : Statement) (a : Arguments) :
    Except Failure Sql × Store κ :=
  Id.run (c.runWith s key (pure statement) a)

def runInto (c : Compiler) (s : Store κ) (key : κ) (statement : Statement) (a : Arguments)
    (sink : Sink) : (Except Failure String × Sink) × Store κ :=
  Id.run (c.runIntoWith s key (pure statement) a sink)

end Compiler

end PreparedSql
