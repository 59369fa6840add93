import Mathlib.Data.List.Infix
import Vdms.Json

/-!
# The Response of a Remote Video Operation

The server of a remote operation answers with a zip archive of the video and of its metadata.
`process_response` reads an entry in chunks, into a buffer on the stack: it writes those of the
video by their length, but appends those of the metadata as a C string, up to the first NUL behind
the start of the buffer.

## Main definitions

* `processResponse`: the function, on the memory of the buffer and the response file.
* `DecodedIntact`: both entries are taken as they are in the archive.

## Main results

* `appended_short`: text that is read from chunks alone is shorter than these.
* `decoded_iff`: the archives that are decoded intact.
-/

namespace Vdms

namespace VCL

namespace RemoteResponse

/-! ### The archive -/

/-- What one call of `zip_fread` returns. -/
abbrev Chunk := { bytes : List UInt8 // 0 < bytes.length ∧ bytes.length ≤ 1024 }

/-- The bytes of an entry. -/
def bytesOf (chunks : List Chunk) : List UInt8 := chunks.flatMap Subtype.val

/-- An entry, and how `zip_fread` splits it. There are no chunks where the entry cannot be
opened. -/
structure ZipEntry where
  name : List Char
  file : Option (List Chunk)

/-- `filename.find(format) != std::string::npos`. -/
def ZipEntry.HasFormat (format : List Char) (entry : ZipEntry) : Prop := format <:+: entry.name

instance (format : List Char) (entry : ZipEntry) : Decidable (entry.HasFormat format) :=
  inferInstanceAs (Decidable (format <:+: entry.name))

/-! ### The function -/

/-- How `process_response` ends badly: a string that has no end in the memory, and the
`delete[] new_filename` of characters that belong to a string. -/
inductive Fault where
  | endOfMemory
  | badDelete

/-- What `process_response` has done: the memory from the start of the buffer on, the response file
if it was created, the texts that were given to the parser, and if a byte was read that `zip_fread`
had not returned. -/
structure State where
  buffer : List UInt8
  file : Option (List UInt8)
  parsed : List (List UInt8)
  readBehind : Bool

/-- `zip_fread`, of a chunk: the bytes behind it stay. -/
def zipFread (chunk : Chunk) (s : State) : State :=
  { s with buffer := chunk.1 ++ s.buffer.drop chunk.1.length }

/-- `fwrite` of the first bytes of the buffer. -/
def fwrite (bytesRead : ℕ) (s : State) : State :=
  { s with file := s.file.map (· ++ s.buffer.take bytesRead) }

/-- The loop over the chunks of the video. -/
def readVideo : List Chunk → State → State
  | [], s => s
  | chunk :: chunks, s => readVideo chunks (fwrite chunk.1.length (zipFread chunk s))

/-- The length of the C string at the start of a memory. -/
def strlen : List UInt8 → Option ℕ
  | [] => none
  | c :: cs => if c = 0 then some 0 else (strlen cs).map (· + 1)

/-- The loop over the chunks of the metadata: `jsonString += buffer`. -/
def readJson : List Chunk → List UInt8 → State → Except Fault (List UInt8 × State)
  | [], jsonString, s => .ok (jsonString, s)
  | chunk :: chunks, jsonString, s =>
      let s := zipFread chunk s
      match strlen s.buffer with
      | none => .error .endOfMemory
      | some len =>
          readJson chunks (jsonString ++ s.buffer.take len)
            { s with readBehind := s.readBehind || decide (chunk.1.length ≤ len) }

/-- `Json::Reader::parse`: if the text is one of JSON, and what it leaves in the value. -/
abbrev Reader := List UInt8 → Json → Bool × Json

/-- What `fopen` of the response file answers. -/
abbrev Opens := Bool

/-- The loop over the entries. -/
def processEntries (reader : Reader) (opens : Opens) (format : List Char) :
    List ZipEntry → Json → State → Except Fault (Json × State)
  | [], metadata, s => .ok (metadata, s)
  | entry :: entries, metadata, s =>
      match entry.file with
      | none => processEntries reader opens format entries metadata s
      | some chunks =>
          if entry.HasFormat format then
            if opens then
              processEntries reader opens format entries metadata
                (readVideo chunks { s with file := some [] })
            else .error .badDelete
          else
            match readJson chunks [] s with
            | .error fault => .error fault
            | .ok (jsonString, s) =>
                let s := { s with parsed := s.parsed ++ [jsonString] }
                let (parsingSuccessful, metadata) := reader jsonString metadata
                if parsingSuccessful then
                  processEntries reader opens format entries metadata s
                else .ok (metadata, s)

/-- `process_response`, on what the stack holds: `return 1` where the archive cannot be opened. -/
def processResponse (reader : Reader) (opens : Opens) (format : List Char)
    (archive : Option (List ZipEntry)) (stack : List UInt8) : Except Fault (Json × State) :=
  match archive with
  | none => .ok (.int 1, ⟨stack, none, [], false⟩)
  | some entries => processEntries reader opens format entries .null ⟨stack, none, [], false⟩

/-! ### Intact responses -/

/-- An entry that can be opened. -/
structure Stored where
  name : List Char
  chunks : List Chunk

namespace Stored

def bytes (entry : Stored) : List UInt8 := bytesOf entry.chunks

def toEntry (entry : Stored) : ZipEntry := ⟨entry.name, some entry.chunks⟩

end Stored

/-- An archive of a video, whose name contains the format, and of its metadata if there are any. -/
structure Archive (format : List Char) where
  video : Stored
  video_name : video.toEntry.HasFormat format
  json : Option Stored
  jsonFirst : Bool

namespace Archive

variable {format : List Char}

/-- The entries in their order. -/
def stored (archive : Archive format) : List Stored :=
  if archive.jsonFirst then archive.json.toList ++ [archive.video]
  else archive.video :: archive.json.toList

def entries (archive : Archive format) : List ZipEntry := archive.stored.map Stored.toEntry

end Archive

variable {reader : Reader} {format : List Char} {stack : List UInt8}

/-- The response file holds the bytes of the video, the parser was given those of the metadata, and
nothing was read that had not been returned. -/
def DecodedIntact (reader : Reader) (stack : List UInt8) (archive : Archive format) : Prop :=
  ∃ metadata s, processResponse reader true format (some archive.entries) stack =
    .ok (metadata, s) ∧ s.file = some archive.video.bytes ∧
    s.parsed = archive.json.toList.map Stored.bytes ∧ s.readBehind = false

/-! ### The loops over the chunks -/

section Chunks

variable {chunk : Chunk} {chunks : List Chunk} {text text' : List UInt8} {s s' : State}

/-- A chunk that is written by its length is written as it is. -/
theorem fwrite_zipFread : (fwrite chunk.1.length (zipFread chunk s)).file =
    s.file.map (· ++ chunk.1) := by
  rw [fwrite, zipFread, List.take_left]

theorem readVideo_rest : (readVideo chunks s).parsed = s.parsed ∧
    (readVideo chunks s).readBehind = s.readBehind := by
  induction chunks generalizing s with
  | nil => exact ⟨rfl, rfl⟩
  | cons chunk chunks ih => exact @ih (fwrite chunk.1.length (zipFread chunk s))

/-- The loop over the chunks of the video appends its bytes. Induction on the chunks. -/
theorem readVideo_file : (readVideo chunks s).file = s.file.map (· ++ bytesOf chunks) := by
  induction chunks generalizing s with
  | nil => simp [readVideo, bytesOf]
  | cons chunk chunks ih =>
      rw [readVideo, ih, fwrite_zipFread, Option.map_map]
      congr 1
      funext bytes
      simp [bytesOf]

theorem readJson_cons (h : readJson (chunk :: chunks) text s = .ok (text', s')) :
    ∃ len, strlen (zipFread chunk s).buffer = some len ∧
      readJson chunks (text ++ (zipFread chunk s).buffer.take len)
        { zipFread chunk s with
          readBehind := s.readBehind || decide (chunk.1.length ≤ len) } = .ok (text', s') := by
  rw [readJson] at h
  split at h
  · cases h
  · rename_i len hlen
    exact ⟨len, hlen, h⟩

theorem readJson_file (h : readJson chunks text s = .ok (text', s')) :
    s'.file = s.file ∧ s'.parsed = s.parsed := by
  induction chunks generalizing s text with
  | nil =>
      cases h
      exact ⟨rfl, rfl⟩
  | cons chunk chunks ih =>
      obtain ⟨len, -, hrest⟩ := readJson_cons h
      have hkept := ih hrest
      exact hkept

/-- What was read behind a chunk stays read. -/
theorem readJson_readBehind (h : readJson chunks text s = .ok (text', s'))
    (hbehind : s.readBehind = true) : s'.readBehind = true := by
  induction chunks generalizing s text with
  | nil =>
      cases h
      exact hbehind
  | cons chunk chunks ih =>
      obtain ⟨len, -, hrest⟩ := readJson_cons h
      exact ih hrest (by rw [hbehind, Bool.true_or])

/-- Text that is read from chunks alone is shorter than these, by the NUL of each chunk. Induction
on the chunks. -/
theorem appended_short (h : readJson chunks text s = .ok (text', s'))
    (hbehind : s'.readBehind = false) :
    text'.length + chunks.length ≤ text.length + (bytesOf chunks).length := by
  induction chunks generalizing s text with
  | nil =>
      cases h
      exact Nat.le_add_right _ _
  | cons chunk chunks ih =>
      obtain ⟨len, -, hrest⟩ := readJson_cons h
      have hlt : len < chunk.1.length := by
        by_contra hle
        have hread := readJson_readBehind hrest (by simp; omega)
        rw [hbehind] at hread
        cases hread
      have hle := ih hrest
      simp only [bytesOf, List.length_append, List.length_take, List.flatMap_cons,
        List.length_cons] at hle ⊢
      omega

end Chunks

/-! ### The loop over the entries -/

section Entries

variable {entry : Stored} {entries : List ZipEntry} {metadata metadata' : Json} {s s' : State}

theorem processEntries_video (h : entry.toEntry.HasFormat format) :
    processEntries reader true format (entry.toEntry :: entries) metadata s =
      processEntries reader true format entries metadata
        (readVideo entry.chunks { s with file := some [] }) := by
  rw [processEntries]
  simp only [Stored.toEntry] at h ⊢
  rw [if_pos h, if_pos trivial]

/-- An entry of metadata: the parser is given a text, and fails or is followed by what is left. -/
theorem processEntries_json (h : ¬ entry.toEntry.HasFormat format)
    (hruns : processEntries reader true format (entry.toEntry :: entries) metadata s =
      .ok (metadata', s')) :
    ∃ text t, readJson entry.chunks [] s = .ok (text, t) ∧
      ((reader text metadata).1 = false ∧ s' = { t with parsed := t.parsed ++ [text] } ∨
        (reader text metadata).1 = true ∧
          processEntries reader true format entries (reader text metadata).2
            { t with parsed := t.parsed ++ [text] } = .ok (metadata', s')) := by
  rw [processEntries] at hruns
  simp only [Stored.toEntry] at h hruns
  rw [if_neg h] at hruns
  split at hruns
  · cases hruns
  · rename_i text t htext
    refine ⟨text, t, htext, ?_⟩
    cases hparse : (reader text metadata).1 with
    | true =>
        rw [hparse, if_pos rfl] at hruns
        exact .inr ⟨rfl, hruns⟩
    | false =>
        rw [hparse, if_neg Bool.false_ne_true] at hruns
        cases hruns
        exact .inl ⟨rfl, rfl⟩

/-- Nothing is parsed of entries that are taken for videos. -/
theorem processEntries_videos {stored : List Stored}
    (hall : ∀ entry ∈ stored, entry.toEntry.HasFormat format)
    (h : processEntries reader true format (stored.map Stored.toEntry) metadata s =
      .ok (metadata', s')) : s'.parsed = s.parsed := by
  induction stored generalizing s with
  | nil =>
      cases h
      rfl
  | cons entry stored ih =>
      rw [List.forall_mem_cons] at hall
      rw [List.map_cons, processEntries_video hall.1] at h
      rw [ih hall.2 h, readVideo_rest.1]

theorem bytes_eq_nil : entry.bytes = [] ↔ entry.chunks = [] := by
  constructor
  · intro hnil
    cases hchunks : entry.chunks with
    | nil => rfl
    | cons chunk chunks =>
        rw [Stored.bytes, hchunks, bytesOf, List.flatMap_cons, List.append_eq_nil_iff] at hnil
        have hpos := chunk.2.1
        rw [hnil.1] at hpos
        cases hpos
  · intro hnil
    rw [Stored.bytes, hnil]
    rfl

theorem processEntries_empty (h : ¬ entry.toEntry.HasFormat format) (hnil : entry.bytes = []) :
    processEntries reader true format (entry.toEntry :: entries) metadata s =
      if (reader [] metadata).1 then
        processEntries reader true format entries (reader [] metadata).2
          { s with parsed := s.parsed ++ [[]] }
      else .ok ((reader [] metadata).2, { s with parsed := s.parsed ++ [[]] }) := by
  rw [bytes_eq_nil] at hnil
  rw [processEntries]
  simp only [Stored.toEntry, hnil] at h ⊢
  rw [if_neg h]
  rfl

/-- Metadata that reach the parser as they are, from chunks alone, are empty. -/
theorem bytes_nil_of_intact (h : readJson entry.chunks [] s = .ok (entry.bytes, s'))
    (hbehind : s'.readBehind = false) : entry.bytes = [] := by
  have hshort := appended_short h hbehind
  rw [bytes_eq_nil, ← List.length_eq_zero_iff]
  change (bytesOf entry.chunks).length + entry.chunks.length ≤ _ at hshort
  rw [List.length_nil] at hshort
  omega

end Entries

/-! ### The archives that are decoded intact -/

section Archives

variable {archive : Archive format} {json : Stored}

theorem decoded_of_none (h : archive.json = none) : DecodedIntact reader stack archive := by
  have hstored : archive.stored = [archive.video] := by
    rw [Archive.stored, h]
    exact ite_self _
  refine ⟨.null, readVideo archive.video.chunks ⟨stack, some [], [], false⟩, ?_, ?_, ?_, ?_⟩
  · rw [Archive.entries, hstored, List.map_singleton, processResponse,
      processEntries_video archive.video_name]
    rfl
  · rw [readVideo_file]
    rfl
  · rw [readVideo_rest.1, h]
    rfl
  · exact readVideo_rest.2

/-- Metadata that are taken for a video are not parsed. -/
theorem not_decoded_of_format (hjson : archive.json = some json)
    (h : json.toEntry.HasFormat format) : ¬ DecodedIntact reader stack archive := by
  rintro ⟨metadata, s, hruns, -, hparsed, -⟩
  have hall : ∀ entry ∈ archive.stored, entry.toEntry.HasFormat format := by
    intro entry hentry
    have hor : entry = archive.video ∨ entry = json := by
      rw [Archive.stored, hjson] at hentry
      split at hentry
      · simpa [or_comm] using hentry
      · simpa using hentry
    obtain rfl | rfl := hor
    · exact archive.video_name
    · exact h
  rw [processEntries_videos hall hruns, hjson] at hparsed
  cases hparsed

/-- The video in front: the metadata are at the end, whatever the parser makes of them. -/
theorem decoded_videoFirst_iff (hjson : archive.json = some json)
    (h : ¬ json.toEntry.HasFormat format) (hfirst : archive.jsonFirst = false) :
    DecodedIntact reader stack archive ↔ json.bytes = [] := by
  have hstored : archive.stored = [archive.video, json] := by
    rw [Archive.stored, hjson, hfirst]
    rfl
  have hruns : processResponse reader true format (some archive.entries) stack =
      processEntries reader true format [json.toEntry] .null
        (readVideo archive.video.chunks ⟨stack, some [], [], false⟩) := by
    rw [Archive.entries, hstored, List.map_cons, processResponse,
      processEntries_video archive.video_name]
    rfl
  have hfile := @readVideo_file archive.video.chunks ⟨stack, some [], [], false⟩
  have hrest := @readVideo_rest archive.video.chunks ⟨stack, some [], [], false⟩
  constructor
  · rintro ⟨metadata, s, hok, -, hparsed, hbehind⟩
    rw [hruns] at hok
    obtain ⟨text, t, htext, hend⟩ := processEntries_json h hok
    have hs : s = { t with parsed := t.parsed ++ [text] } := by
      obtain ⟨-, hs⟩ | ⟨-, hnil⟩ := hend
      · exact hs
      · cases hnil
        rfl
    subst hs
    change t.parsed ++ [text] = _ at hparsed
    rw [(readJson_file htext).2, hrest.1, hjson] at hparsed
    cases hparsed
    exact bytes_nil_of_intact htext hbehind
  · intro hnil
    refine ⟨(reader [] .null).2, { readVideo archive.video.chunks ⟨stack, some [], [], false⟩ with
      parsed := [[]] }, ?_, hfile, ?_, hrest.2⟩
    · rw [hruns, processEntries_empty h hnil, hrest.1]
      exact ite_self _
    · rw [hjson]
      change [[]] = [json.bytes]
      rw [hnil]

/-- The metadata in front: the video is reached only if the parser takes them. -/
theorem decoded_jsonFirst_iff (hjson : archive.json = some json)
    (h : ¬ json.toEntry.HasFormat format) (hfirst : archive.jsonFirst = true) :
    DecodedIntact reader stack archive ↔ json.bytes = [] ∧ (reader [] .null).1 = true := by
  have hstored : archive.stored = [json, archive.video] := by
    rw [Archive.stored, hjson, hfirst]
    rfl
  have hruns : processResponse reader true format (some archive.entries) stack =
      processEntries reader true format [json.toEntry, archive.video.toEntry] .null
        ⟨stack, none, [], false⟩ := by
    rw [Archive.entries, hstored]
    rfl
  constructor
  · rintro ⟨metadata, s, hok, hfile, hparsed, hbehind⟩
    rw [hruns] at hok
    obtain ⟨text, t, htext, hend⟩ := processEntries_json h hok
    have hkept := readJson_file htext
    obtain ⟨-, rfl⟩ | ⟨haccepted, hvideo⟩ := hend
    · change t.file = _ at hfile
      rw [hkept.1] at hfile
      cases hfile
    · rw [processEntries_video archive.video_name] at hvideo
      cases hvideo
      rw [readVideo_rest.1, hjson] at hparsed
      change t.parsed ++ [text] = _ at hparsed
      rw [hkept.2] at hparsed
      cases hparsed
      rw [readVideo_rest.2] at hbehind
      have hnil := bytes_nil_of_intact htext hbehind
      rw [hnil] at haccepted
      exact ⟨hnil, haccepted⟩
  · rintro ⟨hnil, haccepted⟩
    refine ⟨(reader [] .null).2, readVideo archive.video.chunks ⟨stack, some [], [[]], false⟩, ?_,
      readVideo_file, ?_, readVideo_rest.2⟩
    · rw [hruns, processEntries_empty h hnil, if_pos haccepted,
        processEntries_video archive.video_name]
      rfl
    · rw [readVideo_rest.1, hjson]
      change [[]] = [json.bytes]
      rw [hnil]

/-- The archives that are decoded intact: those without metadata, or whose metadata are empty and
do not end the function before the video. -/
theorem decoded_iff (reader : Reader) (stack : List UInt8) {format : List Char}
    (archive : Archive format) : DecodedIntact reader stack archive ↔
      ∀ json ∈ archive.json, ¬ json.toEntry.HasFormat format ∧ json.bytes = [] ∧
        (archive.jsonFirst = true → (reader [] .null).1 = true) := by
  cases hjson : archive.json with
  | none => exact iff_of_true (decoded_of_none hjson) (by simp)
  | some json =>
      simp only [Option.mem_some_iff, forall_eq']
      by_cases h : json.toEntry.HasFormat format
      · exact iff_of_false (not_decoded_of_format hjson h) fun hall => hall.1 h
      · cases hfirst : archive.jsonFirst with
        | false => rw [decoded_videoFirst_iff hjson h hfirst]; simp [h]
        | true => rw [decoded_jsonFirst_iff hjson h hfirst]; simp [h]

/-- A video of three bytes in front of the metadata of an empty object. -/
def emptyObject : Archive ['m', 'p', '4'] where
  video := ⟨['v', '.', 'm', 'p', '4'], [⟨[1, 2, 3], by decide⟩]⟩
  video_name := ⟨['v', '.'], [], rfl⟩
  json := some ⟨['v', '.', 'j', 's', 'o', 'n'], [⟨[123, 125], by decide⟩]⟩
  jsonFirst := false

/-- The third byte of the video stays in the buffer, behind the two braces that are read after
it. -/
theorem object_not_decoded : ¬ DecodedIntact (fun _ metadata => (true, metadata))
    (List.replicate 1024 0) emptyObject := by
  intro hdecoded
  have hnil := (decoded_videoFirst_iff rfl (by decide) rfl).1 hdecoded
  cases hnil

end Archives

end RemoteResponse

end VCL

end Vdms
