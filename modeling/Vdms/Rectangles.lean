import Vdms.AutomaticPurge
import Vdms.FrameIntervals

/-!
# Bounding Boxes in a Rectangle

A stored box is at its left and top, `VD:x1` and `VD:y1`, and has a width and a height.
`FindBoundingBox` turns a rectangle into bounds for each of these four properties. The right
and the bottom edge are sums of two of them: the bounds compare the left with the width of the
rectangle, and the width with the right edge of the rectangle.

## Main results

* `FindBoundingBox.rectangle_iff`: the boxes for which the bounds decide as the edges do, and
  the ones whose answer stays the same wherever box and rectangle are moved together.
-/

namespace Vdms

open Platform

/-- The documented behaviour of PMGD's predicates on integers. -/
class Platform.IntegerBounds [Platform] : Prop where
  passes_ge (key : StringID) (a t : ℤ) (props : Props) : key ≠ 0 →
    props key = some (.integer t) →
    (passes { id := key, op := .ge, v1 := some (.integer a) } props = true ↔ a ≤ t)
  passes_le (key : StringID) (a t : ℤ) (props : Props) : key ≠ 0 →
    props key = some (.integer t) →
    (passes { id := key, op := .le, v1 := some (.integer a) } props = true ↔ t ≤ a)

instance : Platform.IntegerBounds where
  passes_ge key a t props hkey ht := by
    simp only [passes, tablePasses, hkey, ht, decide_false, Bool.false_or, Option.any_some,
      holdsOp, tableLess, Option.getD_some, Bool.or_eq_true, decide_eq_true_eq,
      Property.integer.injEq]
    omega
  passes_le key a t props hkey ht := by
    simp only [passes, tablePasses, hkey, ht, decide_false, Bool.false_or, Option.any_some,
      holdsOp, tableLess, Option.getD_some, Bool.or_eq_true, decide_eq_true_eq,
      Property.integer.injEq]
    omega

namespace FindBoundingBox

/-- A rectangle, or a box: its left, its top and its extent. -/
structure Rectangle where
  x : ℕ
  y : ℕ
  width : ℕ
  height : ℕ

/-- No edge of the box is beyond the one of the rectangle. -/
def Rectangle.Inside (box r : Rectangle) : Prop :=
  r.x ≤ box.x ∧ r.y ≤ box.y ∧ box.x + box.width ≤ r.x + r.width ∧
    box.y + box.height ≤ r.y + r.height

instance (box r : Rectangle) : Decidable (box.Inside r) :=
  inferInstanceAs (Decidable (_ ∧ _ ∧ _ ∧ _))

/-- The rectangle is of the same extent, elsewhere. -/
structure Rectangle.Moved (r r' : Rectangle) (dx dy : ℤ) : Prop where
  x : (r'.x : ℤ) = r.x + dx
  y : (r'.y : ℤ) = r.y + dy
  width : r'.width = r.width
  height : r'.height = r.height

section

variable [Platform]

/-- The properties of a stored box. -/
structure IsBox (props : Props) (box : Rectangle) : Prop where
  x : props (stringID "VD:x1") = some (.integer box.x)
  y : props (stringID "VD:y1") = some (.integer box.y)
  width : props (stringID "VD:width") = some (.integer box.width)
  height : props (stringID "VD:height") = some (.integer box.height)

/-- The command asks for the boxes in a rectangle, and has no other constraints. -/
structure AsksFor (cmd : Json) (r : Rectangle) : Prop where
  schema : ApiSchema.findBoundingBox cmd = true
  noConstraints : cmd.get "constraints" = .ok .null
  hasRectangle : cmd.hasMember "rectangle" = .ok true
  rectangle : ∃ rect, cmd.get "rectangle" = .ok rect ∧
    FindFrames.parameter rect "x" 0 = r.x ∧ FindFrames.parameter rect "y" 0 = r.y ∧
    FindFrames.parameter rect "w" 0 = r.width ∧ FindFrames.parameter rect "h" 0 = r.height

/-- The box satisfies the constraints of the command. -/
def Selects (now : ℕ) (cmd : Json) (props : Props) : Prop :=
  ∃ c p pps, constraints cmd = .ok c ∧ parseQueryConstraints now c = .ok p ∧
    p.predicates.mapM constructSearchTerm = .ok pps ∧ Combined p.pOp pps props

/-- The constraints of a rectangle, in the order of their keys. -/
def rectangleConstraints (r : Rectangle) : Json :=
  .object [
    ("VD:height", .array [.string "<=", .int (toInt (r.height + r.y))]),
    ("VD:width", .array [.string "<=", .int (toInt (r.width + r.x))]),
    ("VD:x1", .array [.string ">=", .int r.x, .string "<=", .int r.width]),
    ("VD:y1", .array [.string ">=", .int r.y, .string "<=", .int r.height])]

/-- The predicates that PMGD gets. -/
def rectanglePredicates (r : Rectangle) : List PropertyPredicate :=
  [{ id := stringID "VD:height", op := .le, v1 := some (.integer (toInt (r.height + r.y))) },
   { id := stringID "VD:width", op := .le, v1 := some (.integer (toInt (r.width + r.x))) },
   { id := stringID "VD:x1", op := .geLe, v1 := some (.integer r.x),
     v2 := some (.integer r.width) },
   { id := stringID "VD:y1", op := .geLe, v1 := some (.integer r.y),
     v2 := some (.integer r.height) }]

variable {r r' box box' : Rectangle} {props props' : Props} {cmd : Json} {now : ℕ}

/-- An integer that fits is written as it is. -/
theorem jsonProperty_int {key : String} {z : ℤ} (hlo : -2 ^ 63 ≤ z) (hhi : z < 2 ^ 63) :
    jsonProperty key (.int z) = .ok { type := .integerType, key, intValue := z } := by
  have hint : (Json.int z).asInt64 = .ok z := by
    rw [Json.asInt64, Json.asInteger, if_pos (by omega)]
  simp only [jsonProperty, hint]
  rfl

/-- The pass for a bound. -/
theorem parseMember_bound {key op : String} {z : ℤ} (hkey : key ≠ "_deletion")
    (hkey' : key ≠ "_expiration") (hlo : -2 ^ 63 ≤ z) (hhi : z < 2 ^ 63)
    (ps : List PMGDPropPred) :
    parseMember now { predicates := ps } (key, .array [.string op, .int z]) =
      .ok { predicates := ps ++ [{
        key := .name key, op := ((Comparison.ofString op).map Comparison.op).getD .dontCare
        v1 := { type := .integerType, key, intValue := z } }] } := by
  simp [parseMember, parseKey, parseConstraint, hkey, hkey', Json.size, Json.members, Json.index,
    Json.isArray, parseValue, jsonProperty_int hlo hhi, Json.asString, stillMatches, bind,
    Except.bind, pure, Except.pure]

/-- The pass for two bounds. -/
theorem parseMember_bounds {key op1 op2 : String} {z1 z2 : ℤ} (hkey : key ≠ "_deletion")
    (hkey' : key ≠ "_expiration") (hlo1 : -2 ^ 63 ≤ z1) (hhi1 : z1 < 2 ^ 63)
    (hlo2 : -2 ^ 63 ≤ z2) (hhi2 : z2 < 2 ^ 63) (ps : List PMGDPropPred) :
    parseMember now { predicates := ps }
        (key, .array [.string op1, .int z1, .string op2, .int z2]) =
      .ok { predicates := ps ++ [{
        key := .name key, op := rangeOp op1 op2
        v1 := { type := .integerType, key, intValue := z1 }
        v2 := { type := .integerType, key, intValue := z2 } }] } := by
  simp [parseMember, parseKey, parseConstraint, hkey, hkey', Json.size, Json.members, Json.index,
    parseRange, jsonProperty_int hlo1 hhi1, jsonProperty_int hlo2 hhi2, Json.asString, bind,
    Except.bind, pure, Except.pure]

omit [Platform] in
/-- A sum of two sides as `int` holds it. -/
theorem toInt_add_bounds (m n : ℕ) :
    -2 ^ 63 ≤ toInt ((m : ℤ) + n) ∧ toInt ((m : ℤ) + n) < 2 ^ 63 := by
  have hlo := Int.le_bmod (x := (m : ℤ) + n) (m := 2 ^ 32) (by decide)
  have hhi := Int.bmod_lt (x := (m : ℤ) + n) (m := 2 ^ 32) (by decide)
  rw [toInt]
  omega

omit [Platform] in
/-- A sum that is too large becomes negative. -/
theorem le_toInt_add_iff {l m n : ℕ} (hm : m < 2 ^ 31) (hn : n < 2 ^ 31) :
    (l : ℤ) ≤ toInt ((m : ℤ) + n) ↔ l ≤ m + n ∧ m + n < 2 ^ 31 := by
  rw [toInt, Int.bmod_def]
  split <;> omega

/-- The constraints in the message. -/
def rectangleMessage (r : Rectangle) : List PMGDPropPred :=
  [{ key := .name "VD:height", op := .le,
     v1 := { type := .integerType, key := "VD:height", intValue := toInt (r.height + r.y) } },
   { key := .name "VD:width", op := .le,
     v1 := { type := .integerType, key := "VD:width", intValue := toInt (r.width + r.x) } },
   { key := .name "VD:x1", op := .geLe,
     v1 := { type := .integerType, key := "VD:x1", intValue := r.x }
     v2 := { type := .integerType, key := "VD:x1", intValue := r.width } },
   { key := .name "VD:y1", op := .geLe,
     v1 := { type := .integerType, key := "VD:y1", intValue := r.y }
     v2 := { type := .integerType, key := "VD:y1", intValue := r.height } }]

omit [Platform] in
/-- A loop over one member more. -/
theorem foldlM_ok {α β : Type} {f : β → α → Except QueryError β} {b b' : β} {a : α} {l : List α}
    (h : f b a = .ok b') : (a :: l).foldlM f b = l.foldlM f b' := by
  rw [List.foldlM_cons, h]
  rfl

theorem rectangleConstraints_parse (hx : r.x < 2 ^ 31) (hy : r.y < 2 ^ 31)
    (hw : r.width < 2 ^ 31) (hh : r.height < 2 ^ 31) :
    parseQueryConstraints now (rectangleConstraints r) =
      .ok { predicates := rectangleMessage r } := by
  obtain ⟨hhlo, hhhi⟩ := toInt_add_bounds r.height r.y
  obtain ⟨hwlo, hwhi⟩ := toInt_add_bounds r.width r.x
  have hbounds : ∀ {n : ℕ}, n < 2 ^ 31 → (-2 ^ 63 ≤ (n : ℤ) ∧ (n : ℤ) < 2 ^ 63) := by omega
  obtain ⟨hxlo, hxhi⟩ := hbounds hx
  obtain ⟨hx2lo, hx2hi⟩ := hbounds hw
  obtain ⟨hylo, hyhi⟩ := hbounds hy
  obtain ⟨hy2lo, hy2hi⟩ := hbounds hh
  rw [parseQueryConstraints, rectangleConstraints, Json.members,
    foldlM_ok (parseMember_bound (by decide) (by decide) hhlo hhhi []),
    foldlM_ok (parseMember_bound (by decide) (by decide) hwlo hwhi _),
    foldlM_ok (parseMember_bounds (by decide) (by decide) hxlo hxhi hx2lo hx2hi _),
    foldlM_ok (parseMember_bounds (by decide) (by decide) hylo hyhi hy2lo hy2hi _)]
  simp [rectangleMessage, Comparison.ofString, Comparison.op, rangeOp, pure, Except.pure]

theorem rectangleMessage_search (r : Rectangle) :
    (rectangleMessage r).mapM constructSearchTerm = .ok (rectanglePredicates r) := by
  simp [rectangleMessage, rectanglePredicates, List.mapM_cons, constructSearchTerm,
    StringOrID.resolve, Op.isRange, constructSearchProperty, PMGDProp.value, bind, Except.bind,
    pure, Except.pure, Except.map]

/-- The rectangle is one of the schema. -/
theorem AsksFor.shape (h : AsksFor cmd r) :
    ∃ ms, cmd.get "rectangle" = .ok (.object ms) ∧
      ApiSchema.shapeRectangle (.object ms) = true := by
  have hclosed := h.schema
  simp only [ApiSchema.findBoundingBox, Schema.all, List.all_cons, List.all_nil, Bool.and_true,
    Bool.and_eq_true] at hclosed
  have hhas := h.hasRectangle
  cases cmd with
  | object ps =>
      cases hv : ps.lookup "rectangle" with
      | none => simp [Json.hasMember, hv] at hhas
      | some v =>
          have hshape := closed_member hclosed.1 rfl hv
          cases v with
          | object ms => exact ⟨ms, by simp [Json.get, hv], hshape⟩
          | _ => cases hshape
  | null => cases hhas
  | _ => cases hhas

/-- The sides of a rectangle of the schema. -/
theorem shapeRectangle_inv {ms : List (String × Json)}
    (h : ApiSchema.shapeRectangle (.object ms) = true) :
    (∀ key ∈ ["x", "y", "w", "h"], ∀ j, ms.lookup key = some j →
      ApiSchema.nonNegativeInt j = true) ∧
      ∀ key ∈ ["w", "h"], 1 ≤ FindFrames.parameter (.object ms) key 0 := by
  simp only [ApiSchema.shapeRectangle, Schema.all, List.all_cons, List.all_nil, Bool.and_true,
    Bool.and_eq_true] at h
  obtain ⟨-, hclosed, hrequired⟩ := h
  have hextent : ∀ key ∈ ["w", "h"], ∀ j, ms.lookup key = some j →
      ApiSchema.positiveInt j = true := by
    intro key hkey j hj
    simp only [List.mem_cons, List.not_mem_nil, or_false] at hkey
    rcases hkey with rfl | rfl
    · exact closed_member hclosed rfl hj
    · exact closed_member hclosed rfl hj
  constructor
  · intro key hkey j hj
    simp only [List.mem_cons, List.not_mem_nil, or_false] at hkey
    rcases hkey with rfl | rfl | rfl | rfl
    · exact closed_member hclosed rfl hj
    · exact closed_member hclosed rfl hj
    · exact (FindFrames.nonNegative_of_positive (hextent _ (by simp) j hj)).1
    · exact (FindFrames.nonNegative_of_positive (hextent _ (by simp) j hj)).1
  · intro key hkey
    have hgiven : (ms.lookup key).isSome = true := by
      simp only [Schema.required, List.all_cons, List.all_nil, Bool.and_true,
        Bool.and_eq_true] at hrequired
      simp only [List.mem_cons, List.not_mem_nil, or_false] at hkey
      rcases hkey with rfl | rfl
      · exact hrequired.2.2.1
      · exact hrequired.2.2.2
    obtain ⟨j, hj⟩ := Option.isSome_iff_exists.1 hgiven
    have hnum : FindFrames.parameter (.object ms) key 0 = FindFrames.wholeNumber j := by
      simp [FindFrames.parameter, hj]
    rw [hnum]
    exact (FindFrames.nonNegative_of_positive (hextent key hkey j hj)).2

/-- A rectangle has an extent. -/
theorem AsksFor.extent (h : AsksFor cmd r) : 1 ≤ r.width ∧ 1 ≤ r.height := by
  obtain ⟨ms, hget, hshape⟩ := h.shape
  obtain ⟨rect, hrect, -, -, hw, hh⟩ := h.rectangle
  obtain rfl := Except.ok.inj (hget.symm.trans hrect)
  have hextent := (shapeRectangle_inv hshape).2
  have hw1 := hextent "w" (by simp)
  have hh1 := hextent "h" (by simp)
  omega

/-- The constraints of a command that the schema accepts. A side that is no `int` is an
exception. -/
theorem constraints_eq (h : AsksFor cmd r) :
    constraints cmd =
      if r.x < 2 ^ 31 ∧ r.y < 2 ^ 31 ∧ r.width < 2 ^ 31 ∧ r.height < 2 ^ 31 then
        .ok (rectangleConstraints r)
      else .error .logicError := by
  obtain ⟨ms, hget, hshape⟩ := h.shape
  obtain ⟨rect, hrect, hx, hy, hw, hh⟩ := h.rectangle
  obtain rfl := Except.ok.inj (hget.symm.trans hrect)
  have hsides := (shapeRectangle_inv hshape).1
  obtain ⟨-, hgetX⟩ := FindFrames.getValue_nonNegative "x" (hsides "x" (by simp))
  obtain ⟨-, hgetY⟩ := FindFrames.getValue_nonNegative "y" (hsides "y" (by simp))
  obtain ⟨-, hgetW⟩ := FindFrames.getValue_nonNegative "w" (hsides "w" (by simp))
  obtain ⟨-, hgetH⟩ := FindFrames.getValue_nonNegative "h" (hsides "h" (by simp))
  rw [hx] at hgetX
  rw [hy] at hgetY
  rw [hw] at hgetW
  rw [hh] at hgetH
  have hread : constraints cmd = (do
      let x ← getValue Json.asInt (.object ms) "x" 0
      let y ← getValue Json.asInt (.object ms) "y" 0
      let w ← getValue Json.asInt (.object ms) "w" 0
      let h ← getValue Json.asInt (.object ms) "h" 0
      pure (.object [
        ("VD:height", .array [.string "<=", .int (toInt (h + y))]),
        ("VD:width", .array [.string "<=", .int (toInt (w + x))]),
        ("VD:x1", .array [.string ">=", .int x, .string "<=", .int w]),
        ("VD:y1", .array [.string ">=", .int y, .string "<=", .int h])])) := by
    rw [constraints, h.noConstraints]
    simp only [h.hasRectangle, getValue, hrect, bind, Except.bind, pure, Except.pure, if_true]
    rfl
  rw [hread, hgetX, hgetY, hgetW, hgetH]
  have hcast : ∀ n : ℕ, (n : ℤ) < 2 ^ 31 ↔ n < 2 ^ 31 := by omega
  simp only [hcast]
  by_cases hall : r.x < 2 ^ 31 ∧ r.y < 2 ^ 31 ∧ r.width < 2 ^ 31 ∧ r.height < 2 ^ 31
  · rw [if_pos hall, if_pos hall.1, if_pos hall.2.1, if_pos hall.2.2.1, if_pos hall.2.2.2]
    rfl
  · rw [if_neg hall]
    by_cases hx : r.x < 2 ^ 31
    · by_cases hy : r.y < 2 ^ 31
      · by_cases hw : r.width < 2 ^ 31
        · have hh : ¬ r.height < 2 ^ 31 := fun hh => hall ⟨hx, hy, hw, hh⟩
          rw [if_pos hx, if_pos hy, if_pos hw, if_neg hh]
          rfl
        · rw [if_pos hx, if_pos hy, if_neg hw]
          rfl
      · rw [if_pos hx, if_neg hy]
        rfl
    · rw [if_neg hx]
      rfl

/-- **What is selected.** -/
theorem selects_iff [Platform.Integers] [Platform.Ranges] [Platform.IntegerBounds]
    (h : AsksFor cmd r) (hbox : IsBox props box) :
    Selects now cmd props ↔
      (r.x ≤ box.x ∧ box.x ≤ r.width ∧ box.width ≤ r.x + r.width ∧ r.x + r.width < 2 ^ 31) ∧
        r.y ≤ box.y ∧ box.y ≤ r.height ∧ box.height ≤ r.y + r.height ∧
          r.y + r.height < 2 ^ 31 := by
  have hkey : ∀ s : String, s ≠ "" → stringID s ≠ 0 := Platform.Integers.stringID_ne_zero
  -- One bound, and two bounds, on a property of the box.
  have hle : ∀ {key : String} {a : ℤ} {t : ℕ}, key ≠ "" →
      props (stringID key) = some (.integer t) →
      (passes { id := stringID key, op := .le, v1 := some (.integer a) } props = true ↔
        (t : ℤ) ≤ a) := fun hne ht =>
    Platform.IntegerBounds.passes_le _ _ _ _ (hkey _ hne) ht
  have hrange : ∀ {key : String} {a b t : ℕ}, key ≠ "" →
      props (stringID key) = some (.integer t) →
      (passes ⟨stringID key, .geLe, some (.integer a), some (.integer b)⟩ props = true ↔
        a ≤ t ∧ t ≤ b) := by
    intro key a b t hne ht
    rw [Platform.Ranges.passes_range _ _ _ _ _ rfl, Bool.and_eq_true]
    refine and_congr ?_ ?_
    · exact (Platform.IntegerBounds.passes_ge _ _ _ _ (hkey _ hne) ht).trans Int.ofNat_le
    · exact (Platform.IntegerBounds.passes_le _ _ _ _ (hkey _ hne) ht).trans Int.ofNat_le
  by_cases hall : r.x < 2 ^ 31 ∧ r.y < 2 ^ 31 ∧ r.width < 2 ^ 31 ∧ r.height < 2 ^ 31
  · obtain ⟨hx, hy, hw, hh⟩ := hall
    have hcombined : Selects now cmd props ↔
        ∀ pp ∈ rectanglePredicates r, passes pp props = true := by
      constructor
      · rintro ⟨c, p, pps, hc, hp, hpps, hcomb⟩
        rw [constraints_eq h, if_pos ⟨hx, hy, hw, hh⟩] at hc
        obtain rfl := Except.ok.inj hc
        rw [rectangleConstraints_parse hx hy hw hh] at hp
        obtain rfl := Except.ok.inj hp
        rw [rectangleMessage_search] at hpps
        obtain rfl := Except.ok.inj hpps
        exact hcomb
      · intro hpass
        refine ⟨_, _, _, ?_, rectangleConstraints_parse hx hy hw hh, rectangleMessage_search r,
          hpass⟩
        rw [constraints_eq h, if_pos ⟨hx, hy, hw, hh⟩]
    rw [hcombined]
    simp only [rectanglePredicates, List.forall_mem_cons, List.not_mem_nil, false_imp_iff,
      implies_true, and_true]
    rw [hle (by decide) hbox.height, hle (by decide) hbox.width, hrange (by decide) hbox.x,
      hrange (by decide) hbox.y, le_toInt_add_iff hh hy, le_toInt_add_iff hw hx]
    omega
  · refine iff_of_false ?_ (by omega)
    rintro ⟨c, p, pps, hc, -⟩
    rw [constraints_eq h, if_neg hall] at hc
    cases hc

/-- A command with a rectangle. -/
def rectangleCommand (r : Rectangle) : Json :=
  .object [("rectangle", .object [("h", .int r.height), ("w", .int r.width), ("x", .int r.x),
    ("y", .int r.y)])]

theorem rectangleCommand_asksFor (hw : 1 ≤ r.width) (hh : 1 ≤ r.height) :
    AsksFor (rectangleCommand r) r where
  schema := by
    simp [rectangleCommand, ApiSchema.findBoundingBox, ApiSchema.shapeRectangle,
      ApiSchema.nonNegativeInt, ApiSchema.positiveInt, Schema.all, Schema.anyOf, Schema.not,
      Schema.closed, Schema.required, Schema.object, Schema.integer, Schema.minimum,
      List.lookup_cons, Json.isObject]
    omega
  noConstraints := rfl
  hasRectangle := rfl
  rectangle := ⟨_, rfl, rfl, rfl, rfl, rfl⟩

/-- The properties of a box. -/
def boxProps (box : Rectangle) : Props := fun key =>
  if key = stringID "VD:x1" then some (.integer box.x)
  else if key = stringID "VD:y1" then some (.integer box.y)
  else if key = stringID "VD:width" then some (.integer box.width)
  else if key = stringID "VD:height" then some (.integer box.height)
  else none

theorem boxProps_isBox [Platform.Lawful] (box : Rectangle) : IsBox (boxProps box) box where
  x := if_pos rfl
  y := by simp [boxProps, Platform.Lawful.stringID_injective.eq_iff]
  width := by simp [boxProps, Platform.Lawful.stringID_injective.eq_iff]
  height := by simp [boxProps, Platform.Lawful.stringID_injective.eq_iff]

/-- The answer is the same for a rectangle and a box that are moved together. -/
def SameWherever (now : ℕ) (cmd : Json) (props : Props) (r box : Rectangle) : Prop :=
  ∀ cmd' props' r' box' dx dy, AsksFor cmd' r' → IsBox props' box' → r.Moved r' dx dy →
    box.Moved box' dx dy → (Selects now cmd' props' ↔ Selects now cmd props)

/-- The sums of the right and of the bottom edge are `int`s. -/
def EdgesAreInts (r : Rectangle) : Prop :=
  r.x + r.width < 2 ^ 31 ∧ r.y + r.height < 2 ^ 31

/-- The box is before the rectangle, or inside and not farther from the origin than the extent of
the rectangle, or it is beyond one of the bounds. -/
def BoundsAreEdges (box r : Rectangle) : Prop :=
  (box.x < r.x ∨ box.y < r.y) ∨
    (box.Inside r ∧ box.x ≤ r.width ∧ box.y ≤ r.height ∧ EdgesAreInts r) ∨
    (¬ box.Inside r ∧ (r.width < box.x ∨ r.height < box.y ∨ r.x + r.width < box.width ∨
      r.y + r.height < box.height ∨ ¬ EdgesAreInts r))

/-- In one direction: the box is not farther behind the rectangle than its size, and it ends
within twice the size. -/
def Near (behind extent size : ℕ) : Prop :=
  behind ≤ size ∧ behind + extent ≤ 2 * size ∧ extent < 2 ^ 31 ∧ size < 2 ^ 31

/-- The box is before the rectangle, or in one direction not near. -/
def FarApart (box r : Rectangle) : Prop :=
  box.x < r.x ∨ box.y < r.y ∨ ¬ Near (box.x - r.x) box.width r.width ∨
    ¬ Near (box.y - r.y) box.height r.height

/-- Rectangle and box at another place. -/
theorem SameWherever.movedTo [Platform.Lawful] [Platform.Integers] [Platform.Ranges]
    [Platform.IntegerBounds] (hsame : SameWherever now cmd props r box) (h : AsksFor cmd r)
    (hx : r.x ≤ box.x) (hy : r.y ≤ box.y) (x y : ℕ) :
    Selects now cmd props ↔
      (x + (box.x - r.x) ≤ r.width ∧ box.width ≤ x + r.width ∧ x + r.width < 2 ^ 31) ∧
        y + (box.y - r.y) ≤ r.height ∧ box.height ≤ y + r.height ∧ y + r.height < 2 ^ 31 := by
  obtain ⟨hw, hh⟩ := h.extent
  have hasks : AsksFor (rectangleCommand ⟨x, y, r.width, r.height⟩) ⟨x, y, r.width, r.height⟩ :=
    rectangleCommand_asksFor hw hh
  have hbox := boxProps_isBox ⟨x + (box.x - r.x), y + (box.y - r.y), box.width, box.height⟩
  rw [← hsame _ _ _ _ (x - r.x) (y - r.y) hasks hbox ⟨?_, ?_, rfl, rfl⟩ ⟨?_, ?_, rfl, rfl⟩,
    selects_iff hasks hbox]
  · dsimp only
    omega
  · show (x : ℤ) = r.x + (x - r.x)
    omega
  · show (y : ℤ) = r.y + (y - r.y)
    omega
  · show ((x + (box.x - r.x) : ℕ) : ℤ) = box.x + (x - r.x)
    omega
  · show ((y + (box.y - r.y) : ℕ) : ℤ) = box.y + (y - r.y)
    omega

/-- **Rectangles.** The constraints select a box as its edges ask for exactly if the bounds are
on the side of the edges, and the answer is the same wherever box and rectangle are moved
exactly if they are far apart. -/
theorem rectangle_iff [Platform.Lawful] [Platform.Integers] [Platform.Ranges]
    [Platform.IntegerBounds] (h : AsksFor cmd r) (hbox : IsBox props box) :
    ((Selects now cmd props ↔ box.Inside r) ↔ BoundsAreEdges box r) ∧
      (SameWherever now cmd props r box ↔ FarApart box r) := by
  constructor
  · rw [selects_iff h hbox]
    simp only [BoundsAreEdges, Rectangle.Inside, EdgesAreInts]
    omega
  · constructor
    · intro hsame
      by_contra hnear
      simp only [FarApart, Near, not_or, not_not, Nat.not_lt] at hnear
      obtain ⟨hx, hy, hnearX, hnearY⟩ := hnear
      -- Close to the origin the box is selected, and far from it the rectangle is refused.
      have hsel := (hsame.movedTo h hx hy (box.width - r.width) (box.height - r.height)).2
        (by omega)
      have hpast := (hsame.movedTo h hx hy (2 ^ 31) (2 ^ 31)).1 hsel
      omega
    · intro hfar cmd' props' r' box' dx dy h' hbox' hr hb
      rw [selects_iff h hbox, selects_iff h' hbox']
      have hxr := hr.x
      have hyr := hr.y
      have hxb := hb.x
      have hyb := hb.y
      rw [hr.width, hr.height, hb.width, hb.height]
      simp only [FarApart, Near] at hfar
      omega

end

/-- A box in a rectangle at the origin. -/
theorem rectangle_iff_origin :
    (Selects 0 (rectangleCommand ⟨0, 0, 4, 4⟩) (boxProps ⟨1, 1, 2, 2⟩) ↔
      Rectangle.Inside ⟨1, 1, 2, 2⟩ ⟨0, 0, 4, 4⟩) ∧
      ¬ SameWherever 0 (rectangleCommand ⟨0, 0, 4, 4⟩) (boxProps ⟨1, 1, 2, 2⟩) ⟨0, 0, 4, 4⟩
        ⟨1, 1, 2, 2⟩ := by
  have hasks : AsksFor (rectangleCommand ⟨0, 0, 4, 4⟩) ⟨0, 0, 4, 4⟩ :=
    rectangleCommand_asksFor (by decide) (by decide)
  have h := @rectangle_iff _ _ _ _ _ 0 _ _ _ _ hasks (boxProps_isBox ⟨1, 1, 2, 2⟩)
  refine ⟨h.1.2 (.inr (.inl ⟨by decide, by decide, by decide, by decide, by decide⟩)),
    fun hsame => ?_⟩
  have hfar := h.2.1 hsame
  simp only [FarApart, Near] at hfar
  omega

/-- A box is inside of the rectangle of its own edges, and is not selected. -/
theorem own_rectangle_misses :
    ¬ (Selects 0 (rectangleCommand ⟨10, 10, 5, 5⟩) (boxProps ⟨10, 10, 5, 5⟩) ↔
      Rectangle.Inside ⟨10, 10, 5, 5⟩ ⟨10, 10, 5, 5⟩) := by
  have hasks : AsksFor (rectangleCommand ⟨10, 10, 5, 5⟩) ⟨10, 10, 5, 5⟩ :=
    rectangleCommand_asksFor (by decide) (by decide)
  rw [selects_iff hasks (boxProps_isBox ⟨10, 10, 5, 5⟩)]
  decide

end FindBoundingBox

end Vdms
