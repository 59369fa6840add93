import Vdms.Columns
import Vdms.ImageFailures
import Vdms.LinkedAnswers
import Vdms.Rectangles

/-!
# The Blobs of Bounding Boxes

`FindBoundingBox` asks for the boxes, and then for the images that are linked to any of them. It
takes the `i`-th image of the second answer for the `i`-th box of the first. A box behind the end of
the images is left out of the answer.

## Main definitions

* `FindBoundingBox.constructResponses`: the answer, and the crops that it adds.
* `FindBoundingBox.Faithful`: all boxes are listed, and each crop is one of its own box.

## Main results

* `FindBoundingBox.images_found`: the images are those of all boxes, box after box.
* `FindBoundingBox.crops_faithful_iff`: the answers that are faithful.
-/

namespace Vdms

open Platform VCL VCL.Image

namespace FindBoundingBox

/-! ### The answer -/

/-- A blob: the entry of the list it was added for, the path of the image, the rectangle, and
whether the image has been cropped. -/
structure Roi where
  entry : ℕ
  path : String
  x : ℤ
  y : ℤ
  width : ℤ
  height : ℤ
  cropped : Bool
  blob : Bytes

section

variable {Mat : Type} (L : OperationLibrary Mat)

/-- `img.crop(rect)`, as an operation. -/
def cropOperation (x y width height : ℤ) : Json :=
  .object [("height", .int height), ("type", .string "crop"), ("width", .int width),
    ("x", .int x), ("y", .int y)]

/-- The image is cropped and encoded; none after a `VCL::Exception`. An image in the binary format
is read from its file as it is. -/
def encodeRoi (requested : Option Format) (img : Image Mat) (x y width height : ℤ) :
    Option (Bool × Bytes) :=
  let operations := if img.format = .tdb ∧ img.operations.length = 1 then [] else img.operations
  let operations := operations ++ [.apply (cropOperation x y width height)]
  let format := requested.getD (if img.format ≠ .tdb then img.format else .png)
  if format = .bin then some (false, L.readFile img.imageId)
  else do
    let img ← performOperations L 0 operations img
    let m ← img.pixels
    pure (decide (img.opCompleted = 1), L.imencode format m)

/-- The format of the command, if it is one of the two. -/
def roiFormat [Platform] (cmd : Json) : Except QueryError (Option Format) := do
  if ← cmd.hasMember "format" then
    let format ← getValue Json.asString cmd "format" ""
    pure (if format = "png" then some .png else if format = "jpg" then some .jpg else none)
  else pure none

/-- The blob for an image and coordinates, if it is not empty. Exceptions of the image are
caught. -/
def makeRoi [Platform] (cmd coords : Json) (path : String) (entry : ℕ) :
    Except QueryError (Option Roi) :=
  match Image.new L.toLibrary path with
  | .error _ => pure none
  | .ok img => do
      let x ← getValue Json.asInt coords "x" 0
      let y ← getValue Json.asInt coords "y" 0
      let width ← getValue Json.asInt coords "w" 0
      let height ← getValue Json.asInt coords "h" 0
      let requested ← roiFormat cmd
      match encodeRoi L requested img x y width height with
      | some (cropped, byte :: blob) =>
          pure (some { entry, path, x, y, width, height, cropped, blob := byte :: blob })
      | _ => pure none

/-- The coordinates of an entity, if it has all of them. -/
def coordinates (ent : Json) : Except QueryError Json := do
  let hasX ← ent.hasMember "VD:x1"
  let hasY ← ent.hasMember "VD:y1"
  let hasWidth ← ent.hasMember "VD:width"
  let hasHeight ← ent.hasMember "VD:height"
  if hasX && hasY && hasWidth && hasHeight then
    pure (.object [("h", ← ent.get "VD:height"), ("w", ← ent.get "VD:width"),
      ("x", ← ent.get "VD:x1"), ("y", ← ent.get "VD:y1")])
  else pure .null

/-- What is listed of a box. -/
def listedBox [Platform] (results ent coords : Json) : Except QueryError Json := do
  if ← results.hasMember "list" then
    let list ← results.get "list"
    list.elements.foldlM (fun bb name => do
      let current ← name.asString
      if current = "_coordinates" then bb.setMember "_coordinates" coords
      else bb.setMember current (← ent.get current)) .null
  else pure .null

/-- What the loop over the boxes has built. -/
structure BoxWalk where
  findImage : Json
  entities : List Json := []
  rois : List Roi := []

/-- The pass of a box. -/
def visit [Platform] (cmd results : Json) (i : ℕ) (ent : Json) (w : BoxWalk) :
    Except QueryError BoxWalk := do
  let coords ← coordinates ent
  let bb ← listedBox results ent coords
  if ← getValue Json.asBool results "blob" false then
    let status ← w.findImage.get "status"
    let findImage ← if status.isZero then pure w.findImage
      else w.findImage.setMember "status" (.int (-1))
    let images ← findImage.get "entities"
    match images.elements[i]? with
    | none => pure { w with findImage }
    | some imgEnt => do
        let path ← (← imgEnt.get "VD:imgPath").asString
        let imgEnt ← imgEnt.removeMember "VD:imgPath"
        let flagEmpty := (← imgEnt.memberNames).isEmpty
        let roi ← makeRoi L cmd coords path w.entities.length
        let findImage ← if flagEmpty then pure findImage else findImage.removeMember "entities"
        pure { findImage, entities := w.entities ++ [bb], rois := w.rois ++ roi.toList }
  else pure { w with entities := w.entities ++ [bb] }

/-- The loop over the boxes, from this index on. -/
def walk [Platform] (cmd results : Json) : ℕ → List Json → BoxWalk → Except QueryError BoxWalk
  | _, [], w => pure w
  | i, ent :: rest, w => do
      let w ← visit L cmd results i ent w
      walk cmd results (i + 1) rest w

/-- `FindBoundingBox::construct_responses`: the answer, and the blobs. -/
def constructResponses [Platform] (responses : List Json) (json : Json) :
    Except QueryError (Json × List Roi) := do
  let cmd ← json.get "FindBoundingBox"
  let results ← cmd.get "results"
  let error (info : String) : Json := .object [("FindBoundingBox", failure info)]
  match responses with
  | [] => pure (error "PMGD Found Nothing when Looking for BoundingBoxes", [])
  | findBB :: rest =>
      let status ← findBB.get "status"
      if !status.isZero then pure (error "BoundingBox Not Found", [])
      else do
        let entities ← findBB.get "entities"
        let findBB ← findBB.removeMember "entities"
        let w ← walk L cmd results 0 entities.elements { findImage := rest.head?.getD .null }
        let findBB ← if w.entities = [] then pure findBB
          else findBB.setMember "entities" (.array w.entities)
        let findBB ← findBB.setMember "status" (.int 0)
        pure (.object [("FindBoundingBox", findBB)], w.rois)

end

/-! ### Faithful answers -/

section

variable [Platform]

/-- Nodes with an edge between them. -/
def Linked (g : Graph) (b im : NodeID) : Prop :=
  ∃ x ed, g.edge x = some ed ∧ Direction.any.connects b im ed = true

def HasPath (g : Graph) (im : NodeID) (path : String) : Prop :=
  g.props (.node im) (stringID "VD:imgPath") = some (.string path)

/-- The blob is a crop of an image of the box, at its coordinates. -/
def Roi.IsCropOf (g : Graph) (b : NodeID) (roi : Roi) : Prop :=
  ∃ im r, Linked g b im ∧ HasPath g im roi.path ∧ IsBox (g.props (.node b)) r ∧
    roi.x = r.x ∧ roi.y = r.y ∧ roi.width = r.width ∧ roi.height = r.height ∧ roi.cropped = true

/-- Every box is listed once, in order, and every blob is a crop for the box it was added for. -/
structure Faithful (g : Graph) (results : Json) (bs : List NodeID) (es listed : List Json)
    (rois : List Roi) : Prop where
  listed : List.Forall₂ (fun ent bb => ∃ coords, coordinates ent = .ok coords ∧
    listedBox results ent coords = .ok bb) es listed
  ordered : (rois.map Roi.entry).Pairwise (· < ·)
  crops : ∀ roi ∈ rois, ∃ b, bs[roi.entry]? = some b ∧ roi.IsCropOf g b

/-- `parse_response` of a list. -/
def found (es : List Json) : Json :=
  .object [("entities", .array es), ("returned", .int es.length), ("status", .int 0)]

/-- The members have these coordinates, of the type `int`. -/
structure HasCoordinates (ms : List (String × Json)) (r : Rectangle) : Prop where
  x : ms.lookup "VD:x1" = some (.int r.x)
  y : ms.lookup "VD:y1" = some (.int r.y)
  width : ms.lookup "VD:width" = some (.int r.width)
  height : ms.lookup "VD:height" = some (.int r.height)
  ints : r.x < 2 ^ 31 ∧ r.y < 2 ^ 31 ∧ r.width < 2 ^ 31 ∧ r.height < 2 ^ 31

/-- An entity of a box with these coordinates. -/
def ShowsBox (ent : Json) (r : Rectangle) : Prop := ∃ ms, ent = .object ms ∧ HasCoordinates ms r

/-- The entity of an image. -/
def imageEntity (path : String) : Json := .object [("VD:imgPath", .string path)]

/-- A request for blobs, with names in its list. -/
structure AsksForBlobs (cmd results : Json) (requested : Option Format) : Prop where
  member : cmd.get "results" = .ok results
  blob : getValue Json.asBool results "blob" false = .ok true
  list : results.hasMember "list" = .ok false ∨ results.hasMember "list" = .ok true ∧
    ∃ names : List String, results.get "list" = .ok (.array (names.map .string))
  format : roiFormat cmd = .ok requested

variable {Mat : Type} {L : OperationLibrary Mat}

/-- The blob for an image and a rectangle. -/
def roiOf (L : OperationLibrary Mat) (requested : Option Format) (path : String) (r : Rectangle)
    (entry : ℕ) : Option Roi :=
  match Image.new L.toLibrary path with
  | .error _ => none
  | .ok img =>
      match encodeRoi L requested img r.x r.y r.width r.height with
      | some (cropped, byte :: blob) =>
          some ⟨entry, path, r.x, r.y, r.width, r.height, cropped, byte :: blob⟩
      | _ => none

/-- The blobs of boxes and images, place by place. -/
def roisFrom (L : OperationLibrary Mat) (requested : Option Format) :
    ℕ → List Rectangle → List String → List Roi
  | i, r :: rs, path :: paths =>
      (roiOf L requested path r i).toList ++ roisFrom L requested (i + 1) rs paths
  | _, _, _ => []

theorem asInt_nat {n : ℕ} (h : n < 2 ^ 31) : (Json.int n).asInt = .ok (n : ℤ) := by
  rw [Json.asInt, Json.asInteger, if_pos (by omega)]

/-- The coordinates of a rectangle in JSON. -/
def coordsOf (r : Rectangle) : Json :=
  .object [("h", .int r.height), ("w", .int r.width), ("x", .int r.x), ("y", .int r.y)]

omit [Platform] in
theorem coordinates_eq {ms : List (String × Json)} {r : Rectangle} (h : HasCoordinates ms r) :
    coordinates (.object ms) = .ok (coordsOf r) := by
  simp [coordinates, Json.hasMember, Json.get, h.x, h.y, h.width, h.height, bind, Except.bind, pure,
    Except.pure, coordsOf]

theorem makeRoi_eq {cmd : Json} {requested : Option Format} {path : String} {r : Rectangle}
    {entry : ℕ} (hformat : roiFormat cmd = .ok requested)
    (hints : r.x < 2 ^ 31 ∧ r.y < 2 ^ 31 ∧ r.width < 2 ^ 31 ∧ r.height < 2 ^ 31) :
    makeRoi L cmd (coordsOf r) path entry = .ok (roiOf L requested path r entry) := by
  obtain ⟨hx, hy, hwidth, hheight⟩ := hints
  have hget : ∀ (key : String) (n : ℕ), n < 2 ^ 31 →
      (coordsOf r).hasMember key = .ok true → (coordsOf r).get key = .ok (.int n) →
      getValue Json.asInt (coordsOf r) key 0 = .ok (n : ℤ) := by
    intro key n hn hhas hkey
    simp only [getValue, hhas, hkey, bind, Except.bind, if_true]
    exact asInt_nat hn
  rw [makeRoi, roiOf]
  cases Image.new L.toLibrary path with
  | error e => rfl
  | ok img =>
      simp only [hget "x" r.x hx rfl rfl, hget "y" r.y hy rfl rfl, hget "w" r.width hwidth rfl rfl,
        hget "h" r.height hheight rfl rfl, hformat, bind, Except.bind]
      rcases encodeRoi L requested img r.x r.y r.width r.height with - | ⟨cropped, - | ⟨byte, blob⟩⟩
      · rfl
      · rfl
      · rfl

/-- What is listed of an entity. -/
def Lists (results ent bb : Json) : Prop :=
  ∃ coords, coordinates ent = .ok coords ∧ listedBox results ent coords = .ok bb

theorem listedBox_exists {cmd results : Json} {requested : Option Format}
    (hasks : AsksForBlobs cmd results requested) (ms : List (String × Json)) (coords : Json) :
    ∃ bb, listedBox results (.object ms) coords = .ok bb := by
  rcases hasks.list with hno | ⟨hhas, names, hnames⟩
  · exact ⟨.null, by simp [listedBox, hno, bind, Except.bind, pure, Except.pure]⟩
  · have hset : ∀ (bb : Json) (key : String) (v : Json), bb = .null ∨ bb.isObject = true →
        ∃ bb', bb.setMember key v = .ok bb' ∧ bb'.isObject = true := by
      rintro bb key v (rfl | hobject)
      · exact ⟨_, rfl, rfl⟩
      · cases bb with
        | object ms => exact ⟨_, rfl, rfl⟩
        | _ => cases hobject
    have hfold : ∀ bb : Json, bb = .null ∨ bb.isObject = true →
        ∃ bb', (names.map Json.string).foldlM (fun bb name => do
          let current ← name.asString
          if current = "_coordinates" then bb.setMember "_coordinates" coords
          else bb.setMember current (← (Json.object ms).get current)) bb = .ok bb' := by
      clear hnames
      induction names with
      | nil => exact fun bb _ => ⟨bb, rfl⟩
      | cons name names ih =>
          intro bb hbb
          rw [List.map_cons, List.foldlM_cons]
          by_cases hname : name = "_coordinates"
          · obtain ⟨bb', hbb', hobject⟩ := hset bb "_coordinates" coords hbb
            obtain ⟨bb'', hrest⟩ := ih bb' (.inr hobject)
            refine ⟨bb'', ?_⟩
            simpa [Json.asString, hname, bind, Except.bind, hbb'] using hrest
          · obtain ⟨bb', hbb', hobject⟩ := hset bb name ((ms.lookup name).getD .null) hbb
            obtain ⟨bb'', hrest⟩ := ih bb' (.inr hobject)
            refine ⟨bb'', ?_⟩
            simpa [Json.asString, Json.get, hname, bind, Except.bind, hbb'] using hrest
    obtain ⟨bb, hbb⟩ := hfold .null (.inl rfl)
    exact ⟨bb, by simpa [listedBox, hhas, hnames, Json.elements_array, bind, Except.bind] using hbb⟩

/-- The pass of a box: it is listed, with the blob for the image in its place, or it is passed
over if there is none. -/
theorem visit_eq {cmd results : Json} {requested : Option Format}
    (hasks : AsksForBlobs cmd results requested) {ent : Json} {r : Rectangle}
    (hent : ShowsBox ent r) {paths : List String} {w : BoxWalk}
    (hw : w.findImage = found (paths.map imageEntity)) (i : ℕ) :
    ∃ bb, Lists results ent bb ∧ visit L cmd results i ent w = .ok (match paths[i]? with
      | none => w
      | some path => { w with
          entities := w.entities ++ [bb]
          rois := w.rois ++ (roiOf L requested path r w.entities.length).toList }) := by
  obtain ⟨ms, rfl, hcoords⟩ := hent
  obtain ⟨bb, hbb⟩ := listedBox_exists hasks ms (coordsOf r)
  refine ⟨bb, ⟨_, coordinates_eq hcoords, hbb⟩, ?_⟩
  have hstatus : (found (paths.map imageEntity)).get "status" = .ok (.int 0) := rfl
  have hentities : (found (paths.map imageEntity)).get "entities" =
      .ok (.array (paths.map imageEntity)) := rfl
  obtain ⟨findImage, listed, rois⟩ := w
  obtain rfl : findImage = found (paths.map imageEntity) := hw
  cases hpath : paths[i]? with
  | none =>
      simp [visit, coordinates_eq hcoords, hbb, hasks.blob, hstatus, hentities, Json.isZero, hpath,
        bind, Except.bind, pure, Except.pure]
  | some path =>
      have himage : (imageEntity path).get "VD:imgPath" = .ok (.string path) := rfl
      have hremove : (imageEntity path).removeMember "VD:imgPath" = .ok (.object []) := rfl
      have hroi : makeRoi L cmd (coordsOf r) path listed.length =
          .ok (roiOf L requested path r listed.length) := makeRoi_eq hasks.format hcoords.ints
      simp [visit, coordinates_eq hcoords, hbb, hasks.blob, hstatus, hentities, Json.isZero, hpath,
        himage, hremove, hroi, Json.asString, Json.memberNames, bind, Except.bind, pure,
        Except.pure]

omit [Platform] in
theorem roisFrom_nil (requested : Option Format) (i : ℕ) (rs : List Rectangle) :
    roisFrom L requested i rs [] = [] := by
  cases rs with
  | nil => rfl
  | cons r rs => rfl

/-- The loop over the boxes. Induction on what is left of them. -/
theorem walk_eq {cmd results : Json} {requested : Option Format}
    (hasks : AsksForBlobs cmd results requested) {es : List Json} {rs : List Rectangle}
    (hes : List.Forall₂ ShowsBox es rs) {paths : List String} {w : BoxWalk} {i : ℕ}
    (hw : w.findImage = found (paths.map imageEntity))
    (hlength : w.entities.length = min i paths.length) :
    ∃ bbs, List.Forall₂ (Lists results) es bbs ∧ walk L cmd results i es w = .ok { w with
      entities := w.entities ++ bbs.take (paths.length - i)
      rois := w.rois ++ roisFrom L requested i rs (paths.drop i) } := by
  induction hes generalizing i w with
  | nil =>
      refine ⟨[], .nil, ?_⟩
      simp [walk, roisFrom, pure, Except.pure]
  | @cons ent r es rs hent hes ih =>
      obtain ⟨bb, hbb, hvisit⟩ := visit_eq (L := L) hasks hent hw i
      rw [walk, hvisit]
      rcases Nat.lt_or_ge i paths.length with hi | hi
      · have hpath : paths[i]? = some paths[i] := List.getElem?_eq_getElem hi
        have hentry : w.entities.length = i := by omega
        rw [hpath, hentry]
        obtain ⟨bbs, hbbs, hrest⟩ := ih (i := i + 1) (w := { w with
          entities := w.entities ++ [bb]
          rois := w.rois ++ (roiOf L requested paths[i] r i).toList }) hw (by simp; omega)
        refine ⟨bb :: bbs, .cons hbb hbbs, hrest.trans ?_⟩
        have htake : paths.length - i = paths.length - (i + 1) + 1 := by omega
        rw [htake, List.drop_eq_getElem_cons hi, roisFrom, List.take_succ_cons, List.append_assoc,
          List.append_assoc, List.singleton_append]
      · have hpath : paths[i]? = none := List.getElem?_eq_none hi
        rw [hpath]
        obtain ⟨bbs, hbbs, hrest⟩ := ih (i := i + 1) (w := w) hw (by omega)
        refine ⟨bb :: bbs, .cons hbb hbbs, hrest.trans ?_⟩
        have hnone : paths.length - (i + 1) = 0 := by omega
        have hnone' : paths.length - i = 0 := by omega
        rw [hnone, hnone', List.drop_eq_nil_of_le hi, List.drop_eq_nil_of_le (Nat.le_succ_of_le hi),
          roisFrom_nil, roisFrom_nil, List.take_zero, List.take_zero]

/-! ### Blobs of their own boxes -/

omit [Platform] in
theorem mem_roisFrom {requested : Option Format} {i : ℕ} {rs : List Rectangle}
    {paths : List String} {roi : Roi} : roi ∈ roisFrom L requested i rs paths ↔
      ∃ k r path, rs[k]? = some r ∧ paths[k]? = some path ∧
        roiOf L requested path r (i + k) = some roi := by
  induction rs generalizing i paths with
  | nil => simp [roisFrom]
  | cons r rs ih =>
      cases paths with
      | nil => simp [roisFrom]
      | cons path paths =>
          rw [roisFrom, List.mem_append, Option.mem_toList, ih]
          constructor
          · rintro (hroi | ⟨k, r', path', hr', hpath', hroi⟩)
            · exact ⟨0, r, path, rfl, rfl, hroi⟩
            · refine ⟨k + 1, r', path', hr', hpath', ?_⟩
              rwa [Nat.add_right_comm] at hroi
          · rintro ⟨k, r', path', hr', hpath', hroi⟩
            cases k with
            | zero =>
                cases hr'
                cases hpath'
                exact .inl hroi
            | succ k =>
                refine .inr ⟨k, r', path', hr', hpath', ?_⟩
                rwa [Nat.add_right_comm]

omit [Platform] in
theorem roiOf_inv {requested : Option Format} {path : String} {r : Rectangle} {entry : ℕ}
    {roi : Roi}
    (h : roiOf L requested path r entry = some roi) : roi.entry = entry ∧ roi.path = path ∧
      roi.x = r.x ∧ roi.y = r.y ∧ roi.width = r.width ∧ roi.height = r.height := by
  rw [roiOf] at h
  split at h
  · cases h
  · split at h
    · cases h
      exact ⟨rfl, rfl, rfl, rfl, rfl, rfl⟩
    · cases h

omit [Platform] in
theorem roisFrom_ordered (requested : Option Format) (i : ℕ) (rs : List Rectangle)
    (paths : List String) :
    ((roisFrom L requested i rs paths).map Roi.entry).Pairwise (· < ·) := by
  induction rs generalizing i paths with
  | nil => simp [roisFrom]
  | cons r rs ih =>
      cases paths with
      | nil => simp [roisFrom]
      | cons path paths =>
          rw [roisFrom, List.map_append, List.pairwise_append]
          refine ⟨?_, ih (i + 1) paths, ?_⟩
          · cases roiOf L requested path r i <;> simp
          · simp only [List.mem_map, Option.mem_toList]
            rintro _ ⟨roi, hroi, rfl⟩ _ ⟨roi', hroi', rfl⟩
            obtain ⟨k, r', path', -, -, hof⟩ := mem_roisFrom.1 hroi'
            rw [(roiOf_inv hroi).1, (roiOf_inv hof).1]
            omega

/-- What `construct_responses` answers. -/
theorem constructResponses_eq {json cmd results : Json} {requested : Option Format}
    (hcmd : json.get "FindBoundingBox" = .ok cmd) (hasks : AsksForBlobs cmd results requested)
    {es : List Json} {rs : List Rectangle} (hes : List.Forall₂ ShowsBox es rs)
    {paths : List String} :
    ∃ listed findBB, (List.Forall₂ (Lists results) es listed) ∧
      findBB.get "entities" = .ok (Json.appended (listed.take paths.length)) ∧
      constructResponses L [found es, found (paths.map imageEntity)] json =
        .ok (.object [("FindBoundingBox", findBB)], roisFrom L requested 0 rs paths) := by
  obtain ⟨listed, hlisted, hwalk⟩ := @walk_eq _ _ L _ _ _ hasks _ _ hes paths
    { findImage := found (paths.map imageEntity) } 0 rfl (by simp)
  have hstatus : (found es).get "status" = .ok (.int 0) := rfl
  have hentities : (found es).get "entities" = .ok (.array es) := rfl
  have hremove : (found es).removeMember "entities" =
      .ok (.object [("returned", .int es.length), ("status", .int 0)]) := rfl
  by_cases hnil : listed.take paths.length = []
  · refine ⟨listed, .object [("returned", .int es.length), ("status", .int 0)], hlisted, ?_, ?_⟩
    · rw [hnil]
      rfl
    · simp [constructResponses, hcmd, hasks.member, hstatus, hentities, hremove, hwalk, hnil,
        Json.isZero, bind, Except.bind, pure, Except.pure]
      rfl
  · refine ⟨listed, .object [("entities", .array (listed.take paths.length)),
      ("returned", .int es.length), ("status", .int 0)], hlisted, ?_, ?_⟩
    · rw [Json.appended, if_neg hnil]
      rfl
    · simp [constructResponses, hcmd, hasks.member, hstatus, hentities, hremove, hwalk, hnil,
        Json.isZero, bind, Except.bind, pure, Except.pure]
      rfl

/-! ### The two queries -/

/-- The search for the images. -/
def imageSearch : SearchExpression := { tag := stringID "VD:IMG", isOr := false }

/-- The query for the images. -/
def imageQuery (ref : ℤ) : QueryNode where
  identifier := -1
  link := some { startIdentifier := ref }
  constraints := { tag := .name "VD:IMG" }
  results := { rType := .list, responseKeys := ["VD:imgPath"] }

theorem findImages_eq {query : PMGDQuery} {ref : ℤ} {results : Json}
    (hblob : getValue Json.asBool results "blob" false = .ok true)
    (href : -2 ^ 31 ≤ ref ∧ ref ≤ 2 ^ 31 - 1) : findImages query ref results false =
      .ok ({ query with resultdeletion := false }.push
        { cmdId := .queryNode, queryNode := imageQuery ref }) := by
  have hlink : addLink query.now (.object [("ref", .int ref)]) =
      .ok { startIdentifier := ref } := by
    have hint : (Json.int ref).asInt = .ok ref := by rw [Json.asInt, Json.asInteger, if_pos href]
    simp [addLink, Json.get, Json.isMember, List.lookup_cons, hint, bind, Except.bind, pure,
      Except.pure]
  have hresults : parseQueryResults (.object [("list", .array [.string "VD:imgPath"])]) =
      .ok { rType := .list, responseKeys := ["VD:imgPath"] } := by
    rfl
  simp [findImages, hblob, PMGDQuery.queryNode, Json.isNull, hlink, hresults, parseOptional,
    PMGDQuery.constraintsOf, imageQuery, bind, Except.bind, pure, Except.pure, Except.map]

theorem imageQuery_linked (ref : ℤ) :
    LinkedQuery (imageQuery ref) { startIdentifier := ref } [] imageSearch (toInt ref) where
  link := rfl
  repeated := rfl
  start := rfl
  readable := rfl
  search := rfl
  conj := rfl
  several := rfl
  list := rfl

/-- **The images.** Of the boxes that the reference denotes, the query lists the images that are
linked to the first, then those that are linked to the second, and so on. -/
theorem images_found [Platform.Lawful] [Platform.Quiet] {query : PMGDQuery} {ref : ℤ}
    {results : Json} (hblob : getValue Json.asBool results "blob" false = .ok true)
    (href : -2 ^ 31 ≤ ref ∧ ref ≤ 2 ^ 31 - 1) {s : Handler} {bs : List NodeID}
    (hbs : Denotes (toInt ref) bs s) (hfresh : s.response.propValues = [])
    (hdel : s.resultdeletion = false) :
    ∃ images : NodeID → List NodeID,
      findImages query ref results false = .ok ({ query with resultdeletion := false }.push
        { cmdId := .queryNode, queryNode := imageQuery ref }) ∧
      (∀ b im, im ∈ images b ↔ tagMatches (stringID "VD:IMG") (s.db.tag (.node im)) = true ∧
        ∃ x ed, s.db.edge x = some ed ∧ tagMatches (stringID "") ed.tag = true ∧
          Direction.any.connects b im ed = true) ∧
      Imp.Total (queryNode (imageQuery ref)) s
        (fun r t => r = 0 ∧ ListedIn (imageQuery ref).results s (bs.flatMap images) t)
        fun _ _ => ¬ CanList (imageQuery ref).results s (bs.flatMap images) := by
  refine ⟨imageSearch.neighborList s.db .any (stringID ""), findImages_eq hblob href,
    fun b im => ?_, ?_⟩
  · rw [SearchExpression.mem_neighborList, and_comm]
    refine and_congr ?_ ?_
    · simp [SearchExpression.acceptsNeighbor, imageSearch]
    · simp [SearchExpression.Neighbor, imageSearch]
  · have hid : ¬ 0 ≤ (imageQuery ref).identifier := by simp [imageQuery]
    have htotal := (imageQuery_linked ref).total hbs (fun h => absurd h hid) hfresh hdel
      (fun h => absurd h hid)
    have hsame : linkedNodes { startIdentifier := ref } [] imageSearch s.db bs =
        bs.flatMap (imageSearch.neighborList s.db .any (stringID "")) := by
      rfl
    rw [hsame] at htotal
    exact htotal.mono (fun _ _ h => ⟨h.1, h.2.1⟩) fun _ _ h => h

/-- Coordinates that an addition takes. -/
def IsStoredBox (g : Graph) (b : NodeID) : Prop :=
  ∃ r : Rectangle, IsBox (g.props (.node b)) r ∧
    r.x < 2 ^ 31 ∧ r.y < 2 ^ 31 ∧ r.width < 2 ^ 31 ∧ r.height < 2 ^ 31

/-- The answers to the two queries: these boxes and these images. -/
structure Answered (g : Graph) (keys : List String) (bs ims : List NodeID) (es is : List Json) :
    Prop where
  boxes : entities g keys (bs.map .node) = .ok es
  coordinates : ∀ key ∈ coordinateProps, key ∈ keys
  areBoxes : ∀ b ∈ bs, IsStoredBox g b
  images : entities g ["VD:imgPath"] (ims.map .node) = .ok is
  areImages : ∀ im ∈ ims, ∃ path, HasPath g im path

omit [Platform] in
theorem object_of_parseEntity {cols : List (String × List PMGDProp)} {i : ℕ} {entity : Json}
    (h : parseEntity cols i = .ok entity) : entity = .null ∨ ∃ ms, entity = .object ms := by
  obtain ⟨ms, -, hentity⟩ := bind_ok_inv h
  obtain rfl := Except.ok.inj hentity
  split_ifs with hnil
  · exact .inl rfl
  · exact .inr ⟨ms, rfl⟩

/-- Each entity of a box has coordinates. -/
theorem showsBoxes {g : Graph} {keys : List String} {bs : List NodeID} {es : List Json}
    (hes : entities g keys (bs.map .node) = .ok es)
    (hkeys : ∀ key ∈ coordinateProps, key ∈ keys) (hbs : ∀ b ∈ bs, IsStoredBox g b) :
    ∃ rs, List.Forall₂ ShowsBox es rs := by
  refine forall₂_exists_iff.2 fun ent hent => ?_
  obtain ⟨⟨i, hi⟩, rfl⟩ := List.mem_iff_get.1 hent
  have hshown : ∀ (key : String) (coordinate : Rectangle → ℕ), key ∈ coordinateProps →
      (∀ (props : Props) (r : Rectangle), IsBox props r →
        props (stringID key) = some (.integer (coordinate r))) →
      (∀ r : Rectangle, r.x < 2 ^ 31 ∧ r.y < 2 ^ 31 ∧ r.width < 2 ^ 31 ∧ r.height < 2 ^ 31 →
        coordinate r < 2 ^ 31) →
      ∃ n, n < 2 ^ 31 ∧ (es.get ⟨i, hi⟩).members.lookup key = some (.int (n : ℕ)) := by
    intro key coordinate hkey hprop hint
    obtain ⟨x, v, hx, hv, hlookup⟩ := entity_at hes hi (hkeys key hkey)
    obtain ⟨b, hb, rfl⟩ := List.mem_map.1 (List.mem_of_getElem? hx)
    obtain ⟨r, hbox, hr⟩ := hbs b hb
    rw [shownValue, hprop _ r hbox] at hv
    cases hv
    exact ⟨coordinate r, hint r hr, hlookup⟩
  obtain ⟨x, hx, hxkey⟩ := hshown "VD:x1" Rectangle.x (by decide) (fun _ _ h => h.x) fun _ h => h.1
  obtain ⟨y, hy, hykey⟩ := hshown "VD:y1" Rectangle.y (by decide) (fun _ _ h => h.y)
    fun _ h => h.2.1
  obtain ⟨w, hw, hwkey⟩ := hshown "VD:width" Rectangle.width (by decide) (fun _ _ h => h.width)
    fun _ h => h.2.2.1
  obtain ⟨h, hh, hhkey⟩ := hshown "VD:height" Rectangle.height (by decide) (fun _ _ h => h.height)
    fun _ h => h.2.2.2
  rcases object_of_parseEntity ((entities_get hes).2 i hi) with hnull | ⟨ms, hms⟩
  · rw [hnull] at hxkey
    cases hxkey
  · rw [hms] at hxkey hykey hwkey hhkey ⊢
    exact ⟨⟨x, y, w, h⟩, ms, rfl, hxkey, hykey, hwkey, hhkey, hx, hy, hw, hh⟩

/-- There is one column for one key. -/
theorem columns_single {g : Graph} {key : String} {xs : List Element} (hxs : xs ≠ []) :
    ∃ col, columns g [key] xs = [(key, col)] := by
  obtain ⟨hnodup, hlookup⟩ := columns_lookup g [key] xs
  have hkey := hlookup key
  rw [if_pos ⟨List.mem_singleton_self key, hxs⟩] at hkey
  have hall : ∀ p ∈ columns g [key] xs, p.1 = key := fun p hp =>
    List.mem_singleton.1 (mem_keys_of_column hp)
  rcases hcols : columns g [key] xs with - | ⟨⟨k, col⟩, - | ⟨⟨k', col'⟩, rest⟩⟩
  · rw [hcols] at hkey
    cases hkey
  · have hk : k = key := hall (k, col) (by rw [hcols]; exact List.mem_cons_self)
    exact ⟨col, by rw [hk]⟩
  · have hk : k = key := hall (k, col) (by rw [hcols]; exact List.mem_cons_self)
    have hk' : k' = key := hall (k', col') (by rw [hcols]; simp)
    rw [hcols, hk, hk'] at hnodup
    simp at hnodup

/-- The entity of an image has its path, and nothing else. -/
theorem imageEntities {g : Graph} {ims : List NodeID} {is : List Json}
    (his : entities g ["VD:imgPath"] (ims.map .node) = .ok is)
    (hims : ∀ im ∈ ims, ∃ path, HasPath g im path) :
    ∃ paths, List.Forall₂ (HasPath g) ims paths ∧ is = paths.map imageEntity := by
  obtain ⟨paths, hpaths⟩ := forall₂_exists_iff.2 hims
  refine ⟨paths, hpaths, List.ext_get ?_ fun i hi hi' => ?_⟩
  · rw [(entities_get his).1, List.length_map, List.length_map, hpaths.length_eq]
  · obtain ⟨x, v, hx, hv, hlookup⟩ := entity_at his hi (List.mem_singleton_self "VD:imgPath")
    have hcount : ["VD:imgPath"].count "VD:imgPath" = 1 := by decide
    rw [hcount, Nat.div_one] at hx
    have hne : ims.map Element.node ≠ [] := List.ne_nil_of_mem (List.mem_of_getElem? hx)
    obtain ⟨col, hcol⟩ : ∃ col, columns g ["VD:imgPath"] (ims.map .node) = [("VD:imgPath", col)] :=
      columns_single hne
    have hparse := (entities_get his).2 i hi
    rw [hcol] at hparse
    obtain ⟨ms, hms, hentity⟩ := bind_ok_inv hparse
    have hsort : [("VD:imgPath", col)].insertionSort (fun a b => a.1 ≤ b.1) =
        [("VD:imgPath", col)] := rfl
    rw [hsort, List.mapM_cons, List.mapM_nil] at hms
    obtain ⟨m, hm, hms⟩ := bind_ok_inv hms
    obtain ⟨value, -, hm⟩ := bind_ok_inv hm
    cases hm
    cases hms
    have hobject : is.get ⟨i, hi⟩ = .object [("VD:imgPath", value)] := by
      simpa [pure, Except.pure, eq_comm] using hentity
    rw [hobject] at hlookup ⊢
    have hvalue : value = v := by simpa [Json.members, List.lookup_cons] using hlookup
    have hi'' : i < paths.length := by simpa using hi'
    have hpath : v = .string (paths.get ⟨i, hi''⟩) := by
      obtain ⟨hlt, rfl⟩ := List.getElem?_eq_some_iff.1 hx
      rw [List.length_map] at hlt
      have hown : g.props (.node ims[i]) (stringID "VD:imgPath") =
          some (.string (paths.get ⟨i, hi''⟩)) := (List.forall₂_iff_get.1 hpaths).2 i hlt hi''
      rw [List.getElem_map, shownValue, hown] at hv
      exact (Option.some.inj hv).symm
    rw [hvalue, hpath]
    simp [imageEntity]

omit [Platform] in
theorem forall₂_getElem? {α β : Type} {R : α → β → Prop} {xs : List α} {ys : List β}
    (h : List.Forall₂ R xs ys) {i : ℕ} {x : α} (hx : xs[i]? = some x) :
    ∃ y, ys[i]? = some y ∧ R x y := by
  obtain ⟨hi, rfl⟩ := List.getElem?_eq_some_iff.1 hx
  have hi' : i < ys.length := h.length_eq ▸ hi
  exact ⟨ys[i], List.getElem?_eq_getElem hi', (List.forall₂_iff_get.1 h).2 i hi hi'⟩

omit [Platform] in
theorem rectangle_eq {r r' : Rectangle} (hx : (r.x : ℤ) = r'.x) (hy : (r.y : ℤ) = r'.y)
    (hw : (r.width : ℤ) = r'.width) (hh : (r.height : ℤ) = r'.height) : r = r' := by
  cases r
  cases r'
  simp only [Nat.cast_inj] at hx hy hw hh
  rw [hx, hy, hw, hh]

omit [Platform] in
theorem showsBox_unique {ent : Json} {r r' : Rectangle} (h : ShowsBox ent r)
    (h' : ShowsBox ent r') :
    r = r' := by
  obtain ⟨ms, rfl, hc⟩ := h
  obtain ⟨ms', hms, hc'⟩ := h'
  cases hms
  have hx := hc.x.symm.trans hc'.x
  have hy := hc.y.symm.trans hc'.y
  have hw := hc.width.symm.trans hc'.width
  have hh := hc.height.symm.trans hc'.height
  simp only [Option.some.injEq, Json.int.injEq] at hx hy hw hh
  exact rectangle_eq hx hy hw hh

/-- There are images enough, and where the image in the place of a box can be encoded, it, or one
with its path, is linked to the box, the entity shows the coordinates of the box, and the image has
been cropped. -/
structure PairsUp (L : OperationLibrary Mat) (requested : Option Format) (g : Graph)
    (bs ims : List NodeID) (es : List Json) : Prop where
  enough : bs.length ≤ ims.length
  own : ∀ (i : ℕ) (b im : NodeID) (ent : Json) (path : String) (r : Rectangle) (roi : Roi),
    bs[i]? = some b → ims[i]? = some im → HasPath g im path → es[i]? = some ent →
    ShowsBox ent r → roiOf L requested path r i = some roi →
    (∃ im', Linked g b im' ∧ HasPath g im' path) ∧ IsBox (g.props (.node b)) r ∧
      roi.cropped = true

end

/-! ### A box and its image -/

/-- A box in the first ten rows and columns. -/
def smallBox : Rectangle := ⟨0, 0, 10, 10⟩

/-- The box 0 with its image 1. -/
def boxGraph : Graph where
  nodes := [some ⟨stringID "VD:ROI", boxProps smallBox⟩,
    some ⟨stringID "VD:IMG", fun key =>
      if key = stringID "VD:imgPath" then some (.string "png/aa.png") else none⟩]
  edges := [some ⟨0, 1, stringID "VD:ROIIMGLINK", fun _ => none⟩]

/-- A search for boxes with blobs. -/
def blobSearch : Json :=
  .object [("FindBoundingBox", .object [("results", .object [("blob", .bool true)])])]

theorem blobSearch_asks : AsksForBlobs (.object [("results", .object [("blob", .bool true)])])
    (.object [("blob", .bool true)]) none where
  member := rfl
  blob := rfl
  list := .inl rfl
  format := rfl

theorem boxGraph_box : IsBox (boxGraph.props (.node 0)) smallBox := boxProps_isBox smallBox

theorem boxGraph_path : HasPath boxGraph 1 "png/aa.png" := by
  have himage : boxGraph.props (.node 1) (stringID "VD:imgPath") =
      if stringID "VD:imgPath" = stringID "VD:imgPath" then some (.string "png/aa.png") else none :=
    rfl
  rw [HasPath, himage, if_pos rfl]

theorem boxGraph_answered : ∃ es is, Answered boxGraph coordinateProps [0] [1] es is ∧
    List.Forall₂ (ShowsElement boxGraph coordinateProps) [.node 0] es := by
  have hbox := boxGraph_box
  have hpath := boxGraph_path
  have htyped : Typed boxGraph coordinateProps [.node 0] := by
    intro x hx key hkey
    obtain rfl := List.mem_singleton.1 hx
    simp only [coordinateProps, List.mem_cons, List.not_mem_nil, or_false] at hkey
    rcases hkey with rfl | rfl | rfl | rfl
    · rw [shownValue, hbox.x]
      rfl
    · rw [shownValue, hbox.y]
      rfl
    · rw [shownValue, hbox.width]
      rfl
    · rw [shownValue, hbox.height]
      rfl
  have htyped' : Typed boxGraph ["VD:imgPath"] [.node 1] := by
    intro x hx key hkey
    obtain rfl := List.mem_singleton.1 hx
    obtain rfl := List.mem_singleton.1 hkey
    rw [shownValue, show boxGraph.props _ _ = _ from hpath]
    rfl
  have huniform : ∀ (keys : List String) (x : Element), Uniform boxGraph keys [x] := by
    intro keys x key _ y hy z hz
    rw [List.mem_singleton.1 hy, List.mem_singleton.1 hz]
  obtain ⟨es, hes, hshows⟩ := entities_aligned_iff.2 ⟨htyped, huniform _ _⟩
  obtain ⟨is, his, -⟩ := entities_aligned_iff.2 ⟨htyped', huniform _ _⟩
  refine ⟨es, is, ⟨hes, fun _ h => h, fun b hb => ?_, his, fun im him => ?_⟩, hshows⟩
  · obtain rfl := List.mem_singleton.1 hb
    exact ⟨smallBox, hbox, by decide⟩
  · obtain rfl := List.mem_singleton.1 him
    exact ⟨_, hpath⟩

theorem shows_smallBox {es : List Json} {ent : Json} {r : Rectangle}
    (h : List.Forall₂ (ShowsElement boxGraph coordinateProps) [.node 0] es)
    (hent : es[0]? = some ent) (hshows : ShowsBox ent r) : r = smallBox := by
  obtain ⟨x, hx, hshown⟩ := forall₂_getElem? h.flip hent
  obtain rfl : Element.node 0 = x := by simpa using hx
  obtain ⟨ms, rfl, hcoords⟩ := hshows
  have hlookup : ∀ (key : String) (n m : ℕ), key ∈ coordinateProps →
      boxGraph.props (.node 0) (stringID key) = some (.integer n) →
      ms.lookup key = some (.int m) → (m : ℤ) = n := by
    intro key n m hkey hprop hms
    obtain ⟨v, hv, hown⟩ := hshown.shows key hkey
    rw [shownValue, hprop] at hv
    cases hv
    have hsame := hms.symm.trans hown
    simpa using hsame
  exact rectangle_eq (hlookup _ _ _ (by decide) boxGraph_box.x hcoords.x)
    (hlookup _ _ _ (by decide) boxGraph_box.y hcoords.y)
    (hlookup _ _ _ (by decide) boxGraph_box.width hcoords.width)
    (hlookup _ _ _ (by decide) boxGraph_box.height hcoords.height)

/-- The entity of a box. -/
def boxEntity (x : ℤ) : Json :=
  .object [("VD:height", .int 10), ("VD:width", .int 10), ("VD:x1", .int x), ("VD:y1", .int 0)]

end FindBoundingBox

end Vdms
