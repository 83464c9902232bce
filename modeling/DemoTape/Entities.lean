/-
# Entities

An entity carries its identifier, and a scene keeps its entities under identifiers. `Entities` is such a map together
with the fact that the two agree: what is put in under an identifier has to be an entity with that identifier. So
what is found under an identifier has it (`id_of_find?`), and the entities ascend by it (`all_ascending`).

The operations are those of the map below. They are described by what `find?` then finds.
-/
import DemoTape.Message
import DemoTape.SortedMap

namespace DemoTape
set_option autoImplicit false

abbrev Properties := SortedMap String Value

structure Entity where
  id : EntityId
  cls : String
  properties : Properties
  deriving DecidableEq, Repr

/-- Entities under their own identifiers. -/
structure Entities extends SortedMap EntityId Entity where
  keyed : ∀ entry ∈ entries, entry.2.id = entry.1

namespace Entities

theorem toSortedMap_inj {es fs : Entities} : es.toSortedMap = fs.toSortedMap ↔ es = fs := by
  cases es; cases fs; simp

instance : DecidableEq Entities := fun es fs => decidable_of_iff (es.toSortedMap = fs.toSortedMap) toSortedMap_inj

instance : Repr Entities := ⟨fun es => reprPrec es.toSortedMap⟩

def empty : Entities := ⟨∅, nofun⟩

instance : EmptyCollection Entities := ⟨empty⟩

/-- The entities in the order of their identifiers. -/
def all (es : Entities) : List Entity := es.entries.map Prod.snd

/-! ## Operations -/

def insert (es : Entities) (id : EntityId) (entity : Entity) (own : entity.id = id) : Entities where
  toSortedMap := es.toSortedMap.insert id entity
  keyed entry member := by
    rcases SortedMap.Entries.mem_insert member with rfl | member
    · exact own
    · exact es.keyed entry member

/-- Changes the properties of the entity under an identifier, if there is one. -/
def modifyProperties (es : Entities) (id : EntityId) (change : Properties → Properties) : Entities where
  toSortedMap := es.toSortedMap.modify id fun entity => { entity with properties := change entity.properties }
  keyed entry member := by
    obtain ⟨old, there, rfl⟩ := List.mem_map.mp member
    split <;> exact es.keyed old there

def erase (es : Entities) (id : EntityId) : Entities where
  toSortedMap := es.toSortedMap.erase id
  keyed entry member := es.keyed entry ((SortedMap.Entries.erase_sublist id es.entries).mem member)

/-- Puts an entity in under its own identifier. -/
def add (es : Entities) (entity : Entity) : Entities := es.insert entity.id entity rfl

/-- These entities; of two with the same identifier the later one counts. -/
def ofList (entities : List Entity) : Entities := entities.foldl add ∅

/-! ## Laws -/

variable (es : Entities) (id : EntityId)

@[simp] theorem find?_empty : (∅ : Entities).find? id = none := rfl

/-- What is found under an identifier has it. -/
theorem id_of_find? {es : Entities} {id : EntityId} {entity : Entity} (found : es.find? id = some entity) :
    entity.id = id :=
  es.keyed (id, entity) ((es.mem_entries_iff id entity).mpr found)

theorem find?_insert (entity : Entity) (own : entity.id = id) (other : EntityId) :
    (es.insert id entity own).find? other = if other = id then some entity else es.find? other :=
  es.toSortedMap.find?_insert id other entity

theorem find?_modifyProperties (change : Properties → Properties) (other : EntityId) :
    (es.modifyProperties id change).find? other =
      if other = id then (es.find? id).map fun entity => { entity with properties := change entity.properties }
      else es.find? other :=
  es.toSortedMap.find?_modify id other _

theorem find?_erase (other : EntityId) :
    (es.erase id).find? other = if other = id then none else es.find? other :=
  es.toSortedMap.find?_erase id other

theorem ext_find? {es fs : Entities} (same : ∀ id, es.find? id = fs.find? id) : es = fs :=
  toSortedMap_inj.mp (SortedMap.ext_find? same)

theorem modifyProperties_id : es.modifyProperties id (fun p => p) = es := by
  apply ext_find?
  intro other
  rw [find?_modifyProperties]
  split
  case isTrue here => rw [here, Option.map_id']
  case isFalse => rfl

theorem modifyProperties_modifyProperties (first second : Properties → Properties) :
    (es.modifyProperties id first).modifyProperties id second = es.modifyProperties id (fun p => second (first p)) := by
  apply ext_find?
  intro other
  simp only [find?_modifyProperties, if_true, Option.map_map]
  split <;> rfl

theorem erase_insert (entity : Entity) (own : entity.id = id) :
    (es.insert id entity own).erase id = es.erase id := by
  apply ext_find?
  intro other
  rw [find?_erase, find?_erase, find?_insert]
  split <;> rfl

theorem map_all {β : Type} (f : EntityId → Entity → β) :
    es.all.map (fun e => f e.id e) = es.entries.map fun entry => f entry.1 entry.2 := by
  rw [all, List.map_map]
  exact List.map_congr_left fun entry member => by rw [Function.comp_apply, es.keyed entry member]

theorem mem_all {es : Entities} {entity : Entity} : entity ∈ es.all ↔ es.find? entity.id = some entity := by
  rw [← es.mem_entries_iff, all, List.mem_map]
  constructor
  · rintro ⟨⟨id, _⟩, member, rfl⟩
    rwa [es.keyed _ member]
  · exact fun member => ⟨_, member, rfl⟩

theorem all_ascending : es.all.Pairwise fun a b => a.id < b.id := by
  refine List.pairwise_map.mpr (es.ascending.imp_of_mem fun {a b} here there less => ?_)
  rw [es.keyed a here, es.keyed b there]
  exact compareOfLessAndEq_eq_lt.mp less

theorem filter_all (keep : EntityId → Bool) :
    es.all.filter (fun e => keep e.id) = (es.entries.filter fun entry => keep entry.1).map Prod.snd := by
  rw [all, List.filter_map]
  exact congrArg _ (List.filter_congr fun entry member => by rw [Function.comp_apply, es.keyed entry member])

theorem all_erase : (es.erase id).all = es.all.filter (·.id ≠ id) := by
  rw [es.filter_all (· ≠ id), ← SortedMap.entries_erase]
  rfl

/-- An identifier has one entity at most. -/
theorem filter_id : es.all.filter (·.id = id) = (es.find? id).toList := by
  rw [es.filter_all (· = id), SortedMap.filter_key, List.map_map]
  exact List.map_id _

/-! ## One identifier -/

/-- Whether the second are the first with this under an identifier, be it an entity or nothing. -/
def Put (es : Entities) (id : EntityId) (new : Option Entity) (fs : Entities) : Prop :=
  ∀ other, fs.find? other = if other = id then new else es.find? other

theorem Put.unique {es fs gs : Entities} {id : EntityId} {new : Option Entity} (first : es.Put id new fs)
    (second : es.Put id new gs) : fs = gs :=
  ext_find? fun other => (first other).trans (second other).symm

theorem put_insert (entity : Entity) (own : entity.id = id) :
    es.Put id (some entity) (es.insert id entity own) := es.find?_insert id entity own

theorem put_erase : es.Put id none (es.erase id) := es.find?_erase id

theorem put_modifyProperties {es : Entities} {id : EntityId} {entity : Entity} (there : es.find? id = some entity)
    (change : Properties → Properties) :
    es.Put id (some { entity with properties := change entity.properties }) (es.modifyProperties id change) := by
  intro other
  rw [find?_modifyProperties, there, Option.map_some]

end Entities
end DemoTape
