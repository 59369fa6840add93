import Vdms.CSVConstraints

/-!
# The Entity of a Row

`EntityQueryParser`, of the C++ client, makes an `AddEntity` command of a row of a CSV file: the
first cell is the class, and every other cell that is not empty is a property or a constraint, by
the prefix of its column.

## Main definitions

* `parseAddEntity`: the query of a row.
* `PropertyColumns`: rows of properties, each in a column of its own.

## Main results

* `entity_has_cells`: the entity has all properties of its row, and no others.
-/

namespace Vdms

namespace EntityQueryParser

open CSVParserUtil NumberText

/-- The exceptions of `ParseAddEntity`. -/
inductive ParseError where
  | noClass
  | noColumns
  | cell (e : Failure)

section

variable (round : Bool → ℚ → FloatResult Double)

/-- The loop of `ParseAddEntity`, for one column. -/
def parseCell (columnName cell : List Char) (aquery : Json) : Except Failure Json :=
  if cell.isEmpty then .ok aquery
  else if columnName.take 5 = "prop_".toList then
    parseProperty round columnName cell "AddEntity" aquery
  else if columnName.take 5 = "cons_".toList then
    parseConstraints round cell "AddEntity" aquery
  else .ok aquery

/-- The loop of `ParseAddEntity`, over the columns behind the first one. -/
def parseCells : List (List Char × List Char) → Json → Except Failure Json
  | [], aquery => .ok aquery
  | (columnName, cell) :: cells, aquery => do
      let aquery ← parseCell round columnName cell aquery
      parseCells cells aquery

/-- The member `properties`, once there are some. -/
def propertiesMember : Json → List (String × Json)
  | .null => []
  | properties => [("properties", properties)]

/-- The command with the class and the reference. -/
def entity (cls : List Char) (properties : Json) : Json :=
  .object [("AddEntity", .object (("_ref", .int 11) ::
    ("class", .string (String.ofList cls)) :: propertiesMember properties))]

/-- `ParseAddEntity`: the query that is sent for a row. There is a cell for every column. -/
def parseAddEntity (row cols : List (List Char)) : Except ParseError Json :=
  if (row.headD []).isEmpty then .error .noClass
  else if cols.isEmpty then .error .noColumns
  else
    ((parseCells round (cols.tail.zip row.tail) (entity (row.headD []) .null)).mapError .cell).map
      fun aquery => .array [aquery]

end

/-- A member is put into the properties, whether there are some already or not. -/
theorem setProperty_entity (cls propname : List Char) {properties : Json} (v : Json)
    (hmap : IsMap properties) : ∃ properties',
      properties.setMember (String.ofList propname) v = .ok properties' ∧ IsMap properties' ∧
        CSVParserUtil.setProperty (entity cls properties) "AddEntity" propname v =
          .ok (entity cls properties') := by
  obtain rfl | ⟨ms, rfl⟩ := hmap
  · exact ⟨_, rfl, .inr ⟨_, rfl⟩, rfl⟩
  · exact ⟨_, rfl, .inr ⟨_, rfl⟩, rfl⟩

/-- The property of the entity is the member of its properties. -/
theorem property_entity (cls propname : List Char) {properties : Json} (hmap : IsMap properties) :
    property (entity cls properties) "AddEntity" propname =
      properties.get (String.ofList propname) := by
  obtain rfl | ⟨ms, rfl⟩ := hmap
  · rfl
  · rfl

section Rows

variable {round : Bool → ℚ → FloatResult Double} {cells : List (List Char × List Char)}

/-- The cell is a property. -/
def IsProperty (p : List Char × List Char) : Prop := p.2 ≠ [] ∧ p.1.take 5 = "prop_".toList

/-- There are no constraints, the columns have different names, and the text of every property
says its type and its value. -/
structure PropertyColumns (round : Bool → ℚ → FloatResult Double)
    (cells : List (List Char × List Char)) : Prop where
  noConstraint : ∀ p ∈ cells, p.2 ≠ [] → p.1.take 5 ≠ "cons_".toList
  noDate : ∀ p ∈ cells, IsProperty p → (p.1.drop 5).take 5 ≠ ['d', 'a', 't', 'e', ':']
  typable : ∀ p ∈ cells, IsProperty p → Typable round p.2
  nodup : (cells.map Prod.fst).Nodup

/-- The property has the type, and the value, that the text of its cell says. -/
def HasCell (round : Bool → ℚ → FloatResult Double) (properties : Json)
    (p : List Char × List Char) : Prop :=
  ∃ v, properties.get (String.ofList (p.1.drop 5)) = .ok v ∧
    Agrees round p.2 (getDataType round p.2 (p.1.drop 5)) v

/-- Columns of properties with the same name are the same. -/
theorem column_eq {p q : List Char × List Char} (hp : IsProperty p) (hq : IsProperty q)
    (h : p.1.drop 5 = q.1.drop 5) : p.1 = q.1 := by
  rw [← List.take_append_drop 5 p.1, ← List.take_append_drop 5 q.1, hp.2, hq.2, h]

/-- Different names are different strings. -/
theorem ofList_ne {name name' : List Char} (h : name ≠ name') :
    String.ofList name ≠ String.ofList name' := fun heq => h <| by
  rw [← String.toList_ofList (l := name), heq, String.toList_ofList]

/-- **One property.** It is set, and the others stay. -/
theorem parseCell_property (cls : List Char) {properties : Json} (hmap : IsMap properties)
    {p : List Char × List Char} (hp : IsProperty p)
    (hdate : (p.1.drop 5).take 5 ≠ ['d', 'a', 't', 'e', ':']) (htypable : Typable round p.2) :
    ∃ properties', IsMap properties' ∧
      parseCell round p.1 p.2 (entity cls properties) = .ok (entity cls properties') ∧
      HasCell round properties' p ∧
      ∀ name, name ≠ p.1.drop 5 →
        properties'.get (String.ofList name) = properties.get (String.ofList name) := by
  obtain ⟨v, hvalue, hagrees⟩ := htypable.agrees hdate
  obtain ⟨properties', hset, hmap', hcommand⟩ := setProperty_entity cls (p.1.drop 5) v hmap
  have hlength : 5 ≤ p.1.length := by
    have htake := congrArg List.length hp.2
    rw [List.length_take] at htake
    have hfive : "prop_".toList.length = 5 := rfl
    omega
  refine ⟨properties', hmap', ?_, ⟨v, Json.setMember_get_self hset, hagrees⟩, fun name hname => ?_⟩
  · rw [parseCell, if_neg (by simpa using hp.1), if_pos hp.2, parseProperty_eq hlength hdate,
      hvalue]
    exact hcommand
  · rw [Json.setMember_get hset, if_neg (ofList_ne hname)]

/-- **The columns of a row.** Induction on the columns: what has been set stays, as the columns
have different names. -/
theorem parseCells_properties (cls : List Char) (h : PropertyColumns round cells)
    {properties : Json} (hmap : IsMap properties) :
    ∃ properties', IsMap properties' ∧
      parseCells round cells (entity cls properties) = .ok (entity cls properties') ∧
      (∀ p ∈ cells, IsProperty p → HasCell round properties' p) ∧
      ∀ name, (∀ p ∈ cells, IsProperty p → name ≠ p.1.drop 5) →
        properties'.get (String.ofList name) = properties.get (String.ofList name) := by
  induction cells generalizing properties with
  | nil => exact ⟨properties, hmap, rfl, fun _ hp => absurd hp List.not_mem_nil, fun _ _ => rfl⟩
  | cons p cells ih =>
      have hnodup := h.nodup
      rw [List.map_cons, List.nodup_cons] at hnodup
      have hrest : PropertyColumns round cells :=
        ⟨fun q hq => h.noConstraint q (List.mem_cons_of_mem _ hq),
          fun q hq => h.noDate q (List.mem_cons_of_mem _ hq),
          fun q hq => h.typable q (List.mem_cons_of_mem _ hq), hnodup.2⟩
      have hfirst := List.mem_cons_self (a := p) (l := cells)
      by_cases hp : IsProperty p
      · obtain ⟨properties₁, hmap₁, hcell, hhas, hframe⟩ :=
          parseCell_property cls hmap hp (h.noDate p hfirst hp) (h.typable p hfirst hp)
        obtain ⟨properties', hmap', hcells, hall, hframe'⟩ := ih hrest hmap₁
        refine ⟨properties', hmap', ?_, fun q hq hprop => ?_, fun name hname => ?_⟩
        · rw [parseCells, hcell]
          exact hcells
        · rcases List.mem_cons.1 hq with rfl | hq
          · obtain ⟨v, hv, hagrees⟩ := hhas
            refine ⟨v, ?_, hagrees⟩
            rw [hframe' _ fun q' hq' hprop' heq => ?_]
            · exact hv
            · refine hnodup.1 ?_
              rw [column_eq hprop hprop' heq]
              exact List.mem_map_of_mem hq'
          · exact hall q hq hprop
        · rw [hframe' name fun q hq => hname q (List.mem_cons_of_mem _ hq)]
          exact hframe name (hname p hfirst hp)
      · have hskip : parseCell round p.1 p.2 (entity cls properties) =
            .ok (entity cls properties) := by
          rw [parseCell]
          by_cases hempty : p.2 = []
          · rw [if_pos (by simpa using hempty)]
          · rw [if_neg (by simpa using hempty), if_neg fun hprefix => hp ⟨hempty, hprefix⟩,
              if_neg (h.noConstraint p hfirst hempty)]
        obtain ⟨properties', hmap', hcells, hall, hframe⟩ := ih hrest hmap
        refine ⟨properties', hmap', ?_, fun q hq hprop => ?_, fun name hname => ?_⟩
        · rw [parseCells, hskip]
          exact hcells
        · rcases List.mem_cons.1 hq with rfl | hq
          · exact absurd hprop hp
          · exact hall q hq hprop
        · exact hframe name fun q hq => hname q (List.mem_cons_of_mem _ hq)

/-- **The entity of a row.** It has the class of the row, and for every cell that is a property
the member with the type and the value that the cell says; it has no other properties. -/
theorem entity_has_cells {row cols : List (List Char)} (hlength : row.length = cols.length)
    (hcls : row.headD [] ≠ []) (h : PropertyColumns round (cols.tail.zip row.tail)) :
    ∃ properties, parseAddEntity round row cols = .ok (.array [entity (row.headD []) properties]) ∧
      (∀ p ∈ cols.tail.zip row.tail, IsProperty p → HasCell round properties p) ∧
      ∀ name, (∀ p ∈ cols.tail.zip row.tail, IsProperty p → name ≠ p.1.drop 5) →
        properties.get (String.ofList name) = .ok .null := by
  obtain ⟨properties, -, hcells, hall, hframe⟩ :=
    @parseCells_properties round _ (row.headD []) h .null (.inl rfl)
  refine ⟨properties, ?_, hall, fun name hname => hframe name hname⟩
  have hcols : cols ≠ [] := by
    rintro rfl
    obtain rfl := List.length_eq_zero_iff.1 hlength
    exact hcls rfl
  rw [parseAddEntity, if_neg (by simpa using hcls), if_neg (by simpa using hcols), hcells]
  rfl

/-- A person with a property that is a Boolean and one that is an integer. -/
theorem entity_has_cells_adult : ∃ properties,
    parseAddEntity oneAndHalf ["Person".toList, "true".toList, "5".toList]
      ["EntityClass".toList, "prop_adult".toList, "prop_age".toList] =
        .ok (.array [entity "Person".toList properties]) ∧
      HasCell oneAndHalf properties ("prop_adult".toList, "true".toList) ∧
      HasCell oneAndHalf properties ("prop_age".toList, "5".toList) := by
  have hadult : Typable oneAndHalf "true".toList :=
    @Typable.of_agrees oneAndHalf _ "adult".toList (.bool true) (by decide) rfl (.true rfl)
  have hage : Typable oneAndHalf "5".toList :=
    @Typable.of_agrees oneAndHalf _ "age".toList (.int 5) (by decide) rfl
      (.integer ⟨[], ['5'], rfl, fun _ h => (by cases h), by decide, by simp [AllDigits], rfl⟩
        (by decide))
  have hcolumns : PropertyColumns oneAndHalf
      [("prop_adult".toList, "true".toList), ("prop_age".toList, "5".toList)] := by
    refine ⟨fun p hp _ => ?_, fun p hp _ => ?_, fun p hp _ => ?_, by decide⟩
    all_goals
      simp only [List.mem_cons, List.not_mem_nil, or_false] at hp
      rcases hp with rfl | rfl
    · decide
    · decide
    · decide
    · decide
    · exact hadult
    · exact hage
  obtain ⟨properties, hparse, hall, -⟩ := @entity_has_cells oneAndHalf
    ["Person".toList, "true".toList, "5".toList]
    ["EntityClass".toList, "prop_adult".toList, "prop_age".toList] rfl (by decide) hcolumns
  exact ⟨properties, hparse, hall _ (.head _) ⟨by decide, rfl⟩,
    hall _ (.tail _ (.head _)) ⟨by decide, rfl⟩⟩

end Rows

end EntityQueryParser

end Vdms
