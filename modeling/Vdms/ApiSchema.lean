import Vdms.JsonSchema

/-!
# The API Schema

`api_schema.json`: what a request looks like. The schema is shared with the Neo4j backend,
whose commands it lists beside those of PMGD. A top-level alternative asks for no member,
so every alternative accepts the object without members.

## Main results

* `ApiSchema.request_iff`: the schema accepts the arrays of objects that are empty or have
  one member, a command of the list.
-/

namespace Vdms

namespace ApiSchema

open Schema

section Definitions

variable [Platform]

/-! ### Misc -/

def propertyArray : Schema := all [array, items object, minimum 1]

def positiveInt : Schema := all [integer, minimum 1]

def nonNegativeInt : Schema := all [integer, minimum 0]

def nonNegativeIntArray : Schema := all [array, items (all [integer, minimum 0]), minimum 1]

def stringArray : Schema := all [array, items string, minimum 1]

def blob : Schema := boolean

/-- The upper bound 10000 is given as `maximun`, which is no keyword. -/
def refInt : Schema := all [integer, minimum 1]

def imgFormatString : Schema := all [string, enum ["png", "jpg", "bin"]]

def metricFormatString : Schema := all [string, enum ["L2", "IP"]]

def engineFormatString : Schema :=
  all [string, enum ["FaissFlat", "FaissIVFFlat", "TileDBDense", "TileDBSparse", "Flinng"]]

def vidCodecString : Schema := all [string, enum ["xvid", "h264", "h263"]]

def vidContainerString : Schema := all [string, enum ["mp4", "avi", "mov"]]

def edgeDirectionString : Schema := all [string, enum ["in", "out", "any"]]

def sortOrder : Schema := all [string, enum ["ascending", "descending"]]

def sortBlock : Schema :=
  all [object, closed [("key", string), ("order", sortOrder)], required ["key"]]

def oneOfSort : Schema := oneOf [string, sortBlock]

/-! ### Operations -/

def operationInterval : Schema :=
  all [object, closed [("type", enum ["interval"]), ("start", nonNegativeInt),
    ("stop", nonNegativeInt), ("step", positiveInt)], required ["type", "start", "stop"]]

def operationThreshold : Schema :=
  all [object, closed [("type", enum ["threshold"]), ("value", nonNegativeInt)],
    required ["type", "value"]]

def operationCustom : Schema :=
  all [object, properties [("type", enum ["custom"])], required ["type"]]

def operationResize : Schema :=
  all [object, closed [("type", enum ["resize"]), ("height", positiveInt),
    ("width", positiveInt)], required ["type", "height", "width"]]

def operationCrop : Schema :=
  all [object, closed [("type", enum ["crop"]), ("x", nonNegativeInt), ("y", nonNegativeInt),
    ("height", positiveInt), ("width", positiveInt)],
    required ["type", "x", "y", "height", "width"]]

def operationFlip : Schema :=
  all [object, closed [("type", enum ["flip"]), ("code", integer)], required ["type", "code"]]

def operationRotate : Schema :=
  all [object, closed [("type", enum ["rotate"]), ("angle", number), ("resize", boolean)],
    required ["type", "angle", "resize"]]

def operationSyncRemote : Schema :=
  all [object, closed [("type", enum ["syncremoteOp"]), ("url", string), ("options", object)],
    required ["type", "url"]]

def operationRemote : Schema :=
  all [object, closed [("type", enum ["remoteOp"]), ("url", string), ("options", object)],
    required ["type", "url"]]

def operationUser : Schema :=
  all [object, closed [("type", enum ["userOp"]), ("options", object)], required ["type"]]

/-! ### Blocks -/

def blockLink : Schema :=
  all [object, closed [("ref", refInt), ("direction", edgeDirectionString), ("class", string),
    ("properties", object), ("constraints", object)], required ["ref"]]

def blockResults : Schema :=
  all [object, closed [("list", array), ("average", string), ("count", string),
    ("sum", string), ("limit", positiveInt), ("sort", oneOfSort), ("blob", blob)]]

def blockImageOperations : Schema :=
  all [array, minItems 1, items (anyOf [operationThreshold, operationResize, operationCrop,
    operationFlip, operationRotate, operationUser, operationSyncRemote, operationRemote,
    operationCustom])]

def blockVideoOperations : Schema :=
  all [array, minItems 1, items (anyOf [operationThreshold, operationResize, operationCrop,
    operationInterval, operationUser, operationRemote, operationSyncRemote])]

def blockFrameOperations : Schema :=
  all [array, minItems 1, items (anyOf [operationThreshold, operationResize, operationCrop,
    operationFlip, operationRotate, operationInterval])]

def shapeRectangle : Schema :=
  all [object, closed [("x", nonNegativeInt), ("y", nonNegativeInt), ("w", positiveInt),
    ("h", positiveInt)], required ["x", "y", "w", "h"]]

/-! ### Commands -/

def neoAdd : Schema :=
  all [closed [("cypher", string), ("target_data_type", string), ("target_format", string),
    ("operations", blockImageOperations)], required ["cypher"]]

def neoFind : Schema :=
  all [closed [("cypher", string), ("target_data_type", string), ("target_format", string),
    ("operations", blockImageOperations), ("results", blockResults)], required ["cypher"]]

def addEntity : Schema :=
  all [closed [("class", string), ("_ref", refInt), ("link", blockLink), ("blob", blob),
    ("properties", object), ("constraints", object)], required ["class"]]

def updateEntity : Schema :=
  closed [("class", string), ("_ref", refInt), ("properties", object),
    ("remove_props", stringArray), ("constraints", object)]

def addConnection : Schema :=
  all [closed [("class", string), ("ref1", refInt), ("ref2", refInt), ("properties", object)],
    required ["class", "ref1", "ref2"]]

def updateConnection : Schema :=
  closed [("class", string), ("_ref", refInt), ("ref1", refInt), ("ref2", refInt),
    ("properties", object), ("remove_props", stringArray), ("constraints", object)]

def findEntity : Schema :=
  closed [("class", string), ("_ref", refInt), ("link", blockLink), ("constraints", object),
    ("results", blockResults), ("unique", boolean)]

def findConnection : Schema :=
  closed [("class", string), ("_ref", refInt), ("ref1", refInt), ("ref2", refInt),
    ("constraints", object), ("results", object), ("unique", boolean)]

def addImage : Schema :=
  closed [("_ref", refInt), ("from_file_path", string), ("is_local_file", boolean),
    ("format", imgFormatString), ("link", blockLink), ("operations", blockImageOperations),
    ("properties", object)]

def updateImage : Schema :=
  closed [("_ref", refInt), ("properties", object), ("remove_props", stringArray),
    ("unique", boolean), ("constraints", object)]

def findImage : Schema :=
  closed [("_ref", refInt), ("link", blockLink), ("operations", blockImageOperations),
    ("format", imgFormatString), ("constraints", object), ("metaconstraints", object),
    ("results", blockResults), ("unique", boolean)]

def addDescriptorSet : Schema :=
  all [closed [("name", string), ("dimensions", refInt), ("metric", metricFormatString),
    ("engine", engineFormatString), ("link", blockLink), ("properties", object),
    ("flinng_num_rows", refInt), ("flinng_cells_per_row", refInt),
    ("flinng_num_hash_tables", refInt), ("flinng_hashes_per_table", refInt),
    ("flinng_sub_hash_bits", refInt), ("flinng_cut_off", refInt)],
    required ["name", "dimensions"]]

def findDescriptorSet : Schema :=
  all [closed [("_ref", refInt), ("results", blockResults), ("set", string),
    ("storeIndex", boolean), ("constraints", object), ("link", blockLink)], required ["set"]]

def addDescriptor : Schema :=
  all [closed [("set", string), ("label", string), ("_ref", refInt), ("link", blockLink),
    ("properties", object), ("batch_properties", propertyArray)], required ["set"]]

def classifyDescriptor : Schema :=
  all [closed [("set", string), ("_ref", refInt), ("k_neighbors", positiveInt)],
    required ["set"]]

def findDescriptor : Schema :=
  all [closed [("set", string), ("_ref", refInt), ("k_neighbors", positiveInt),
    ("results", blockResults), ("link", blockLink), ("constraints", object),
    ("properties", object)], required ["set"]]

def addBoundingBox : Schema :=
  all [closed [("_ref", refInt), ("rectangle", shapeRectangle), ("image", refInt),
    ("link", blockLink), ("properties", object)], required ["rectangle"]]

def updateBoundingBox : Schema :=
  closed [("_ref", refInt), ("rectangle", shapeRectangle), ("properties", object),
    ("remove_props", stringArray), ("unique", boolean), ("constraints", object)]

def findBoundingBox : Schema :=
  all [closed [("_ref", refInt), ("rectangle", shapeRectangle), ("image", refInt),
    ("link", blockLink), ("constraints", object), ("format", imgFormatString),
    ("results", blockResults), ("unique", boolean)],
    not (anyOf [required ["image", "link"]])]

def addBlob : Schema :=
  closed [("_ref", refInt), ("from_server_file", string), ("from_file_path", string),
    ("link", blockLink), ("properties", object)]

def updateBlob : Schema :=
  closed [("_ref", refInt), ("properties", object), ("remove_props", stringArray),
    ("constraints", object)]

def findBlob : Schema :=
  closed [("_ref", refInt), ("link", blockLink), ("constraints", object),
    ("results", blockResults), ("unique", boolean)]

def addVideo : Schema :=
  closed [("_ref", refInt), ("index_frames", boolean), ("from_server_file", string),
    ("from_file_path", string), ("is_local_file", boolean), ("codec", vidCodecString),
    ("container", vidContainerString), ("link", blockLink),
    ("operations", blockVideoOperations), ("properties", object)]

def updateVideo : Schema :=
  closed [("_ref", refInt), ("properties", object), ("remove_props", stringArray),
    ("constraints", object)]

def findVideo : Schema :=
  closed [("_ref", refInt), ("link", blockLink), ("operations", blockVideoOperations),
    ("codec", vidCodecString), ("container", vidContainerString), ("constraints", object),
    ("metaconstraints", object), ("frameconstraints", boolean), ("results", blockResults),
    ("unique", boolean)]

def findFrames : Schema :=
  closed [("frames", nonNegativeIntArray), ("_ref", refInt), ("link", blockLink),
    ("operations", blockFrameOperations), ("format", imgFormatString),
    ("constraints", object), ("results", blockResults), ("unique", boolean)]

def deleteExpired : Schema := closed [("results", blockResults)]

/-! ### Requests -/

/-- The commands of the top level, `NeoAdd` and `NeoFind` apart. -/
def pmgdCommands : List (String × Schema) :=
  [("AddEntity", addEntity), ("UpdateEntity", updateEntity), ("FindEntity", findEntity),
    ("AddConnection", addConnection), ("UpdateConnection", updateConnection),
    ("FindConnection", findConnection), ("AddImage", addImage), ("UpdateImage", updateImage),
    ("FindImage", findImage), ("AddDescriptorSet", addDescriptorSet),
    ("FindDescriptorSet", findDescriptorSet), ("AddDescriptor", addDescriptor),
    ("ClassifyDescriptor", classifyDescriptor), ("FindDescriptor", findDescriptor),
    ("DeleteExpired", deleteExpired), ("AddBoundingBox", addBoundingBox),
    ("UpdateBoundingBox", updateBoundingBox), ("FindBoundingBox", findBoundingBox),
    ("AddVideo", addVideo), ("UpdateVideo", updateVideo), ("FindVideo", findVideo),
    ("FindFrames", findFrames), ("AddBlob", addBlob), ("UpdateBlob", updateBlob),
    ("FindBlob", findBlob)]

def commands : List (String × Schema) :=
  pmgdCommands ++ [("NeoAdd", neoAdd), ("NeoFind", neoFind)]

/-- The top level: one alternative for each command. -/
def request : Schema :=
  all [array, minItems 1,
    items (all [object, anyOf (commands.map fun c => closed [c])])]

/-- An element of a request: a command with its parameters, or nothing. -/
def Entry (j : Json) : Prop :=
  j = .object [] ∨ ∃ c ∈ commands, ∃ v, j = .object [(c.1, v)] ∧ c.2 v = true

theorem commands_ne_nil : commands ≠ [] := by simp [commands]

theorem entry_iff {j : Json} (hj : j.DistinctKeys) :
    all [object, anyOf (commands.map fun c => closed [c])] j = true ↔ Entry j := by
  cases j with
  | object ms =>
      have hcommand : ∀ c : String × Schema, closed [c] (.object ms) = true ↔
          ms = [] ∨ ∃ v, ms = [(c.1, v)] ∧ c.2 v = true := fun c =>
        closed_single hj.nodup
      simp only [all, anyOf, object, Json.isObject, List.all_cons, List.all_nil,
        Bool.true_and, Bool.and_true, List.any_map, List.any_eq_true, Function.comp_apply,
        hcommand, Entry, Json.object.injEq]
      constructor
      · rintro ⟨c, hc, rfl | ⟨v, rfl, hv⟩⟩
        · exact .inl rfl
        · exact .inr ⟨c, hc, v, rfl, hv⟩
      · rintro (rfl | ⟨c, hc, v, rfl, hv⟩)
        · obtain ⟨c, hc⟩ := List.exists_mem_of_ne_nil _ commands_ne_nil
          exact ⟨c, hc, .inl rfl⟩
        · exact ⟨c, hc, .inr ⟨v, rfl, hv⟩⟩
  | _ => simp [all, object, Json.isObject, Entry]

/-- The requests that the schema accepts. -/
theorem request_iff {j : Json} (hj : j.DistinctKeys) : request j = true ↔
    ∃ xs, j = .array xs ∧ xs ≠ [] ∧ ∀ x ∈ xs, Entry x := by
  cases j with
  | array xs =>
      have hitems : (∀ x ∈ xs, all [object, anyOf (commands.map fun c => closed [c])] x = true) ↔
          ∀ x ∈ xs, Entry x :=
        forall₂_congr fun x hx => entry_iff (hj.element hx)
      have hlen : 1 ≤ xs.length ↔ xs ≠ [] := by
        rw [Nat.one_le_iff_ne_zero, ne_eq, List.length_eq_zero_iff]
      rw [request, all]
      simp only [List.all_cons, List.all_nil, Bool.and_true, array, Json.isArray,
        Bool.true_and, minItems, items, Bool.and_eq_true, decide_eq_true_eq,
        List.all_eq_true, hitems, hlen]
      constructor
      · rintro ⟨hne, h⟩
        exact ⟨xs, rfl, hne, h⟩
      · rintro ⟨ys, heq, hne, h⟩
        injection heq with heq
        subst heq
        exact ⟨hne, h⟩
  | _ => simp [request, all, array, Json.isArray]

end Definitions

end ApiSchema

end Vdms
