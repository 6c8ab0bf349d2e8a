import Mathlib.SetTheory.Cardinal.Arithmetic
import PreparedSql.Proofs.Template.Renaming

/-!
# Correspondences of finitely many objects

A statement mentions finitely many objects, and a correspondence between the objects of two
statements says nothing about others. It is always part of a renaming of all objects: an object is
a number for its identity together with the rest of it, every rest goes with infinitely many
numbers, and so the objects that are left over on both sides can be matched too.
-/

namespace PreparedSql

open Cardinal in
/-- An injection of finitely many numbers is part of a permutation of all. -/
theorem exists_perm_nat {s : Set Nat} (hs : s.Finite) {f : Nat → Nat} (hf : Set.InjOn f s) :
    ∃ σ : Equiv.Perm Nat, ∀ n ∈ s, σ n = f n := by
  have hcard : #s < (#Nat) := by
    rw [mk_nat]
    exact hs.lt_aleph0
  obtain ⟨σ, hσ⟩ := extend_function_of_lt ⟨fun n : s => f n, hf.injective⟩ hcard ⟨.refl Nat⟩
  exact ⟨σ, fun n hn => hσ ⟨n, hn⟩⟩

/-- Objects that differ from others in a number only. A correspondence of finitely many of them
that matches the rest as `rest` does is part of one of all objects. -/
theorem exists_perm_object {Object Rest : Type} (split : Object ≃ Rest × Nat)
    (rest : Equiv.Perm Rest) {objects : List Object} {f : Object → Object}
    (hinj : Set.InjOn f {x | x ∈ objects})
    (hrest : ∀ x ∈ objects, (split (f x)).1 = rest (split x).1) :
    ∃ σ : Equiv.Perm Object,
      (∀ x ∈ objects, σ x = f x) ∧ ∀ x, (split (σ x)).1 = rest (split x).1 := by
  -- The numbers are matched for each rest by itself.
  have hnumber (r : Rest) : ∃ σ : Equiv.Perm Nat,
      ∀ n ∈ {n | split.symm (r, n) ∈ objects}, σ n = (split (f (split.symm (r, n)))).2 := by
    refine exists_perm_nat ?_ ?_
    · refine (objects.finite_toSet.image fun x => (split x).2).subset fun n hn => ?_
      exact ⟨split.symm (r, n), hn, by simp⟩
    · intro n hn m hm hsame
      have hfirst : (split (f (split.symm (r, n)))).1 = (split (f (split.symm (r, m)))).1 := by
        rw [hrest _ hn, hrest _ hm]
        simp
      have hobject := hinj hn hm (split.injective (Prod.ext hfirst hsame))
      simpa using hobject
  choose number hnumber using hnumber
  refine ⟨split.trans ((Equiv.prodShear rest number).trans split.symm), fun x hx => ?_, fun x => ?_⟩
  · have hx' : split.symm ((split x).1, (split x).2) ∈ objects := by simpa using hx
    have hn := hnumber (split x).1 (split x).2 hx'
    apply split.injective
    refine Prod.ext ?_ ?_
    · simpa [Equiv.prodShear] using (hrest x hx).symm
    · simpa [Equiv.prodShear] using hn
  · simp [Equiv.prodShear]

/-- How finitely many objects correspond to others that differ in identity only. -/
structure Correspondence where
  tables : List TableId
  params : List Param
  types : List EntityType
  schemas : List Schema
  catalogs : List Catalog
  table : TableId → TableId
  param : Param → Param
  type : EntityType → EntityType
  schema : Schema → Schema
  catalog : Catalog → Catalog
  table_inj : Set.InjOn table {t | t ∈ tables}
  param_inj : Set.InjOn param {p | p ∈ params}
  type_inj : Set.InjOn type {t | t ∈ types}
  schema_inj : Set.InjOn schema {s | s ∈ schemas}
  catalog_inj : Set.InjOn catalog {c | c ∈ catalogs}
  type_name : ∀ t ∈ types, (type t).name = t.name
  type_interface : ∀ t ∈ types, (type t).interface = t.interface
  schema_name : ∀ s ∈ schemas, (schema s).name = s.name
  schema_catalog : ∀ s ∈ schemas, (schema s).catalog = s.catalog.map catalog
  /-- The catalog of a schema is among the objects. -/
  catalog_mem : ∀ s ∈ schemas, ∀ c ∈ s.catalog, c ∈ catalogs
  catalog_name : ∀ c ∈ catalogs, (catalog c).name = c.name

/-- The renaming matches objects as the correspondence does. -/
structure Renaming.Extends (ρ : Renaming) (κ : Correspondence) : Prop where
  table : ∀ t ∈ κ.tables, ρ.table t = κ.table t
  param : ∀ p ∈ κ.params, ρ.param p = κ.param p
  type : ∀ t ∈ κ.types, ρ.type t = κ.type t
  schema : ∀ s ∈ κ.schemas, ρ.schema s = κ.schema s
  catalog : ∀ c ∈ κ.catalogs, ρ.catalog c = κ.catalog c

section Splits

/-! An object as the rest of it and the number of its identity. -/

def TableId.split : TableId ≃ Unit × Nat where
  toFun t := ((), t.id)
  invFun x := ⟨x.2⟩

def Param.split : Param ≃ Unit × Nat where
  toFun p := ((), p.id)
  invFun x := ⟨x.2⟩

def EntityType.split : EntityType ≃ (String × Bool) × Nat where
  toFun t := ((t.name, t.interface), t.id)
  invFun x := ⟨x.2, x.1.1, x.1.2⟩

def Schema.split : Schema ≃ (String × Option Catalog) × Nat where
  toFun s := ((s.name, s.catalog), s.id)
  invFun x := ⟨x.2, x.1.1, x.1.2⟩

def Catalog.split : Catalog ≃ String × Nat where
  toFun c := (c.name, c.id)
  invFun x := ⟨x.2, x.1⟩

end Splits

/-- Every correspondence of finitely many objects is part of a renaming. -/
theorem Correspondence.exists_extends (κ : Correspondence) : ∃ ρ : Renaming, ρ.Extends κ := by
  obtain ⟨table, htable, -⟩ := exists_perm_object TableId.split (.refl Unit) κ.table_inj
    fun _ _ => rfl
  obtain ⟨param, hparam, -⟩ := exists_perm_object Param.split (.refl Unit) κ.param_inj
    fun _ _ => rfl
  obtain ⟨type, htype, htypes⟩ := exists_perm_object EntityType.split (.refl _) κ.type_inj
    fun t ht => Prod.ext (κ.type_name t ht) (κ.type_interface t ht)
  obtain ⟨catalog, hcatalog, hcatalogs⟩ := exists_perm_object Catalog.split (.refl _)
    κ.catalog_inj κ.catalog_name
  -- Schemas follow their catalogs.
  have hschemaRest (s : Schema) (hs : s ∈ κ.schemas) : (Schema.split (κ.schema s)).1 =
      (Equiv.prodCongr (.refl String) (Equiv.optionCongr catalog)) (Schema.split s).1 := by
    have hmap : s.catalog.map κ.catalog = s.catalog.map catalog := by
      cases hc : s.catalog with
      | none => rfl
      | some c => exact congrArg some (hcatalog c (κ.catalog_mem s hs c hc)).symm
    exact Prod.ext (κ.schema_name s hs) ((κ.schema_catalog s hs).trans hmap)
  obtain ⟨schema, hschema, hschemas⟩ := exists_perm_object Schema.split _ κ.schema_inj hschemaRest
  refine ⟨⟨table, param, type, schema, catalog, ?_, ?_, ?_, ?_, ?_⟩,
    htable, hparam, htype, hschema, hcatalog⟩
  · exact fun t => congrArg Prod.fst (htypes t)
  · exact fun t => congrArg Prod.snd (htypes t)
  · exact fun s => congrArg Prod.fst (hschemas s)
  · exact fun s => congrArg Prod.snd (hschemas s)
  · exact hcatalogs

end PreparedSql
