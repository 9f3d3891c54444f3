import PinnedTree.Proofs.Tree.WellFormed

/-! Properties as JSON values. What can be a property is an atom or an array of atoms, and it is
shown as it was given. From this it follows what the writes on a node accept. -/
namespace PinnedTree

namespace Json

/-- A boolean, a number or a string, or an array of those. -/
inductive IsPropertyValue : Json → Prop where
  | one (value : Atom) : IsPropertyValue (.atom value)
  | many (values : List Atom) : IsPropertyValue (.array (values.map .atom))

theorem mapM_atom?_map (values : List Atom) : (values.map Json.atom).mapM atom? = some values := by
  induction values with
  | nil => rfl
  | cons value values ih => simp [atom?, ih]

theorem map_atom_of_mapM_atom? {items : List Json} {values : List Atom}
    (h : items.mapM atom? = some values) : values.map Json.atom = items := by
  induction items generalizing values with
  | nil =>
      cases h
      rfl
  | cons item items ih =>
      rw [List.mapM_cons] at h
      obtain ⟨first, hFirst, h⟩ := Option.bind_eq_some_iff.mp h
      obtain ⟨rest, hRest, h⟩ := Option.bind_eq_some_iff.mp h
      cases h
      cases item with
      | atom value =>
          cases hFirst
          rw [List.map_cons, ih hRest]
      | null => cases hFirst
      | array _ => cases hFirst
      | object _ => cases hFirst

end Json

namespace Tree

/-- A property that is written is read back. -/
theorem propertyValue?_propertyJson (property : OneOrMany Json.Atom) :
    propertyValue? (propertyJson property) = some property := by
  cases property with
  | one value => rfl
  | many values => rw [propertyJson, propertyValue?, Json.mapM_atom?_map, Option.map_some]

/-- A value that is read as a property is written as it was. -/
theorem propertyJson_of_propertyValue? {value : Json} {property : OneOrMany Json.Atom}
    (h : propertyValue? value = some property) : propertyJson property = value := by
  cases value with
  | atom value =>
      cases h
      rfl
  | array items =>
      obtain ⟨values, hValues, rfl⟩ := Option.map_eq_some_iff.mp h
      rw [propertyJson, Json.map_atom_of_mapM_atom? hValues]
  | null => cases h
  | object _ => cases h

theorem isPropertyValue_propertyJson (property : OneOrMany Json.Atom) :
    (propertyJson property).IsPropertyValue := by
  cases property with
  | one value => exact .one value
  | many values => exact .many values

/-- The values that are read as properties are the atoms and the arrays of atoms. -/
theorem exists_propertyValue?_iff {value : Json} :
    (∃ property, propertyValue? value = some property) ↔ value.IsPropertyValue := by
  constructor
  · rintro ⟨property, hProperty⟩
    rw [← propertyJson_of_propertyValue? hProperty]
    exact isPropertyValue_propertyJson property
  · intro hValue
    cases hValue with
    | one value => exact ⟨.one value, rfl⟩
    | many values => exact ⟨.many values, propertyValue?_propertyJson (.many values)⟩

/-- A property is never taken for a child. -/
theorem isObject_propertyJson (property : OneOrMany Json.Atom) :
    (propertyJson property).isObject = false := by
  cases property <;> rfl

/-! ### What is accepted -/

/-- A property is written in its list, and its name is dropped from the children. -/
theorem setProperty_of_value {node : Tree} {name : String} {value : Json}
    {property : OneOrMany Json.Atom} (hReserved : name ≠ childNodeCount)
    (hValue : propertyValue? value = some property) : node.setProperty name value =
      .ok (.node (node.properties.put name property) (node.children.without name)) := by
  rw [setProperty, if_neg hReserved, hValue]

/-- A child is written in its list, and its name is dropped from the properties. -/
theorem setChild_of_name {node child : Tree} {name : String} (hReserved : name ≠ childNodeCount)
    (hName : Path.IsName name) : node.setChild name child =
      .ok (.node (node.properties.without name) (node.children.put name child)) := by
  rw [setChild, if_neg hReserved, Path.checkName_eq_ok_iff.mpr hName]

/-- A property is accepted under any name but the reserved one, if its value is an atom or an array
of atoms. -/
theorem exists_setProperty_iff {node : Tree} {name : String} {value : Json} :
    (∃ next, node.setProperty name value = .ok next) ↔
      name ≠ childNodeCount ∧ value.IsPropertyValue := by
  rw [← exists_propertyValue?_iff]
  constructor
  · rintro ⟨next, h⟩
    obtain ⟨hName, property, hValue, -⟩ := setProperty_eq_ok h
    exact ⟨hName, property, hValue⟩
  · rintro ⟨hName, property, hValue⟩
    exact ⟨_, setProperty_of_value hName hValue⟩

/-- A child is accepted under the names that are one segment of a path, except the reserved one. -/
theorem exists_setChild_iff {node child : Tree} {name : String} :
    (∃ next, node.setChild name child = .ok next) ↔
      name ≠ childNodeCount ∧ Path.IsName name := by
  constructor
  · rintro ⟨next, h⟩
    obtain ⟨hReserved, hName, -⟩ := setChild_eq_ok h
    exact ⟨hReserved, hName⟩
  · rintro ⟨hReserved, hName⟩
    exact ⟨_, setChild_of_name hReserved hName⟩

end Tree

end PinnedTree
