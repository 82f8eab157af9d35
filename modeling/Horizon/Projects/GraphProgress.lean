import Horizon.Persistence.Schema
import Mathlib.Data.List.Chain
import Mathlib.Data.List.Sort
import Mathlib.Data.List.TakeWhile

/-!
# Progress claims of graph nodes

`graph_progress.py`: a node of the roadmap records the progress of every target repository, bound to
the content of the node by a digest.  The index computes the digest from the blob of a commit, the
command line from the file, and the view compares it with the recorded one.

The loader of the front matter and the hash are parameters.  Canonical JSON sorts the keys of an
object and so depends on what each key is mapped to; content is hashed as that function.  Documents
whose fields have other types are refused by the index and are left out.

`read_text` translates line ends and the index does not, so that the two digests agree just when
the markdown that is hashed has no carriage returns (`progress_digest_agreement`,
`crlf_digest_differs`).
-/

namespace Horizon.GraphProgress

open List

variable {text : Text}

/-! ## Documents -/

abbrev Text := List Char

def cr : Char := Char.ofNat 13

def lf : Char := Char.ofNat 10

/-- `Path.read_text`, which translates line ends. -/
def readText (afterCr : Bool) : Text → Text
  | [] => []
  | c :: text =>
    if c = cr then lf :: readText true text
    else if afterCr && c == lf then readText false text
    else c :: readText false text

/-- The characters at which `splitlines` ends a line. -/
def isLineEnd (c : Char) : Bool := [10, 11, 12, 13, 28, 29, 30, 133, 8232, 8233].contains c.toNat

/-- `str.isspace`, of one character. -/
def isSpace (c : Char) : Bool :=
  isLineEnd c || [9, 31, 32, 160, 5760, 8239, 8287, 12288].contains c.toNat
    || 8192 ≤ c.toNat && c.toNat ≤ 8202

/-- `splitlines(keepends=True)`, behind the start of a line. -/
def splitLines (line : Text) : Text → List Text
  | [] => if line.isEmpty then [] else [line]
  | c :: text =>
    if isLineEnd c && !(c == cr && text.head? == some lf) then (line ++ [c]) :: splitLines [] text
    else splitLines (line ++ [c]) text

def strip (line : Text) : Text := ((line.dropWhile isSpace).reverse.dropWhile isSpace).reverse

/-- The markdown of a body, which an empty line may start. -/
def markdownOf (body : Text) : Text :=
  if body.take 2 = [cr, lf] then body.drop 2
  else if body.head? = some lf then body.tail else body

/-- Whether a line ends the front matter. -/
def isClosing (line : Text) : Bool := strip line == "---".toList || strip line == "...".toList

/-- `parse_document`; `load` reads the front matter, and `blank` is the metadata without any. -/
def parseDocument {M : Type} (load : Text → Option M) (blank : M) (document : Text) :
    Option (M × Text) :=
  match splitLines [] document with
  | [] => some (blank, document)
  | first :: lines =>
    if strip first ≠ "---".toList then some (blank, document)
    else do
      let closing ← lines.findIdx? isClosing
      let metadata ← load (lines.take closing).flatten
      some (metadata, markdownOf (lines.drop (closing + 1)).flatten)

/-! ## Progress records -/

inductive Progress where
  | opened | inProgress | informalStated | proofSketch | informalProved | formallyStated
  | formallyProved | conditionallyProved | kernelChecked
deriving DecidableEq

/-- The labels of `PROGRESS`. -/
def Progress.name : Progress → String
  | opened => "open"
  | inProgress => "in_progress"
  | informalStated => "informal_stated"
  | proofSketch => "proof_sketch"
  | informalProved => "informal_proved"
  | formallyStated => "formally_stated"
  | formallyProved => "formally_proved"
  | conditionallyProved => "conditionally_proved"
  | kernelChecked => "kernel_checked"

def progressNames : List String :=
  [Progress.opened, .inProgress, .informalStated, .proofSketch, .informalProved, .formallyStated,
    .formallyProved, .conditionallyProved, .kernelChecked].map (·.name)

inductive ReviewState where
  | pending | statementAccepted | changesRequested | accepted
deriving DecidableEq

structure Implementation (D : Type) where
  status : Progress := .opened
  review : ReviewState := .pending
  nodeSha : Option D := none
  commitOid : Option Id := none
  evidenceNodeCommitOid : Option Id := none
  declarations : List String := []
  children : Option (List String) := none

/-- The front matter of a node; `fields` holds the keys that have no place of their own. -/
structure Metadata (J D : Type) where
  fields : List (String × J) := []
  labels : List String := []
  children : List String := []
  implementations : List (Id × Implementation D) := []

/-- What is hashed. -/
abbrev Content (J : Type) := (String → Option J) × List String × Text

def isReserved (key : String) : Bool := "_horizon_".toList.isPrefixOf key.toList

section

variable {J D : Type}

def Metadata.content (m : Metadata J D) (markdown : Text) (children : Option (List String)) :
    Content J :=
  (fun key => if isReserved key then none else m.fields.lookup key,
    (children.getD m.children).insertionSort (· ≤ ·), markdown)

variable (load : Text → Option (Metadata J D)) (hash : Content J → D)
  (targets : List Id) (m : Metadata J D)

/-- `fingerprint`. -/
def fingerprint (markdown : Text) (children : Option (List String)) : D :=
  hash (m.content markdown children)

/-- The children a target has of its own. -/
def Metadata.childrenFor (target : Id) : Option (List String) :=
  (m.implementations.lookup target).bind (·.children)

/-- What `validate_implementations` asks of one record. -/
def checkImplementation (entry : Id × Implementation D) : Except String Unit := do
  let (key, item) := entry
  if key ∉ targets then
    throw "Implementation target must be a workspace/library repository in this project"
  if (item.status ≠ .opened ∨ item.review ≠ .pending) ∧ item.nodeSha.isNone then
    throw "Progress and review claims require node_sha256"
  if (item.status = .formallyProved ∨ item.status = .conditionallyProved
      ∨ item.status = .kernelChecked) ∧ item.commitOid.isNone
      ∧ item.evidenceNodeCommitOid.isNone then
    throw "Proof claims require an immutable implementation or evidence-node commit"
  if item.children.any fun keys => !decide keys.Nodup || keys.any (·.toList.all isSpace) then
    throw "Implementation children must be distinct nonempty node keys"

/-- The projection of a node: its metadata and the digests the index adds to it. -/
structure Indexed (J D : Type) where
  metadata : Metadata J D
  nodeSha : D
  targetSha : List (Id × D)

/-- `validate_implementations`. -/
def validateImplementations (markdown : Text) : Except String (Indexed J D) := do
  if 100 < m.implementations.length then
    throw "implementations must map repository UUIDs to progress records"
  m.implementations.forM (checkImplementation targets)
  pure ⟨m, fingerprint hash m markdown none,
    m.implementations.map fun entry => (entry.1, fingerprint hash m markdown entry.2.children)⟩

/-- What `index_snapshot` stores of the text of a node. -/
def indexNode (text : Text) : Except String (Indexed J D) :=
  match parseDocument load {} text with
  | none => throw "invalid document"
  | some (m, markdown) => validateImplementations hash targets m markdown

/-- `main`: the digest that is printed for a file. -/
def printDigest (target : Id) (file : Text) : Option D := do
  let (m, markdown) ← parseDocument load {} (readText false file)
  some (fingerprint hash m markdown (m.childrenFor target))

structure Shown (D : Type) where
  status : String
  review : ReviewState
  stale : Bool
  recorded : Option (Implementation D)

structure ProgressView (D : Type) where
  labels : List String
  nodeSha : D
  implementation : Option (Shown D)

/-- `progress_view`, for a target and whether it is a library. -/
def progressView [DecidableEq D] (stored : Indexed J D) (target : Option Id) (library : Bool) :
    ProgressView D :=
  let m := stored.metadata
  let claimed := target.bind (m.implementations.lookup ·)
  let digest := (target.bind (stored.targetSha.lookup ·)).getD stored.nodeSha
  if m.implementations.isEmpty && !(target.isSome && library) then ⟨m.labels, digest, none⟩
  else
    let stale := claimed.any fun item => item.nodeSha.any (· != digest)
    let status := if stale then "stale" else (claimed.map (·.status.name)).getD "open"
    ⟨m.labels.filter (!progressNames.contains ·) ++ [status], digest,
      some ⟨status, if stale then .pending else (claimed.map (·.review)).getD .pending,
        stale, claimed⟩⟩

/-! ## Line ends -/

theorem readText_eq (h : cr ∉ text) : readText false text = text := by
  induction text with
  | nil => rfl
  | cons c text ih =>
    obtain ⟨hc, htext⟩ := not_or.mp (mem_cons.not.mp h)
    rw [readText, if_neg (Ne.symm hc), Bool.false_and, if_neg Bool.false_ne_true, ih htext]

theorem cr_notMem_readText (afterCr : Bool) (text : Text) : cr ∉ readText afterCr text := by
  induction text generalizing afterCr with
  | nil => exact not_mem_nil
  | cons c text ih =>
    rw [readText]
    split
    · rw [mem_cons, not_or]
      exact ⟨by decide, ih true⟩
    · rename_i hc
      split
      · exact ih false
      · rw [mem_cons, not_or]
        exact ⟨Ne.symm hc, ih false⟩

/-- A line feed that does not follow a carriage return stays. -/
theorem readText_true (h : text.head? ≠ some lf) : readText true text = readText false text := by
  cases text with
  | nil => rfl
  | cons c text =>
    have hc : (c == lf) = false := by simpa using h
    simp only [readText, hc, Bool.and_false]

theorem readText_append (x y : Text) (afterCr : Bool) : readText afterCr (x ++ y)
    = readText afterCr x ++ readText ((x.getLast?.map (· == cr)).getD afterCr) y := by
  induction x generalizing afterCr with
  | nil => rfl
  | cons c x ih =>
    have hlast : ∀ b, ((c :: x).getLast?.map (· == cr)).getD b
        = (x.getLast?.map (· == cr)).getD (c == cr) := by
      intro b
      cases x with
      | nil => rfl
      | cons c' x => rw [getLast?_cons_cons]; cases h : (c' :: x).getLast? <;> simp_all
    rw [cons_append, readText, readText, hlast]
    by_cases hc : c = cr
    · simp [hc, ih]
    · have hne : (c == cr) = false := by simpa using hc
      rw [if_neg hc, if_neg hc, ih false, hne]
      split <;> rfl

/-- The lines of a text are not empty, and none that starts with a line feed follows one that ends
with a carriage return. -/
def AreLines (lines : List Text) : Prop :=
  (∀ line ∈ lines, line ≠ []) ∧ lines.IsChain fun l l' => l.getLast? = some cr → l'.head? ≠ some lf

theorem AreLines.take {lines : List Text} (h : AreLines lines) (n : Nat) :
    AreLines (lines.take n) :=
  ⟨fun line hl => h.1 line (mem_of_mem_take hl), h.2.take n⟩

theorem AreLines.drop {lines : List Text} (h : AreLines lines) (n : Nat) :
    AreLines (lines.drop n) :=
  ⟨fun line hl => h.1 line (mem_of_mem_drop hl), h.2.drop n⟩

theorem head?_flatten {lines : List Text} (h : ∀ line ∈ lines, line ≠ []) :
    lines.flatten.head? = lines.head?.bind head? := by
  cases lines with
  | nil => rfl
  | cons line lines => simp [head?_append_of_ne_nil _ (h line mem_cons_self)]

theorem splitLines_areLines (line text : Text) :
    AreLines (splitLines line text) ∧ (splitLines line text).flatten = line ++ text := by
  induction text generalizing line with
  | nil =>
    cases line with
    | nil => exact ⟨⟨by simp [splitLines], .nil⟩, rfl⟩
    | cons c line => exact ⟨⟨by simp [splitLines], .singleton _⟩, by simp [splitLines]⟩
  | cons c text ih =>
    rw [splitLines]
    split
    · rename_i hend
      obtain ⟨⟨hne, hchain⟩, hflat⟩ := ih []
      refine ⟨⟨fun l hl => ?_, isChain_cons.mpr ⟨fun l hl hlast => ?_, hchain⟩⟩, by simp [hflat]⟩
      · rcases mem_cons.mp hl with rfl | hl
        · simp
        · exact hne l hl
      · have hc : c = cr := by simpa using hlast
        have hhead := head?_flatten hne
        rw [hflat, nil_append, Option.mem_def.mp hl, Option.bind_some] at hhead
        rw [← hhead]
        simp only [hc, Bool.and_eq_true, Bool.not_eq_true', beq_self_eq_true, Bool.true_and] at hend
        simpa using hend.2
    · obtain ⟨hlines, hflat⟩ := ih (line ++ [c])
      exact ⟨hlines, by rw [hflat, append_assoc]; rfl⟩

/-- Line ends are translated line by line. -/
theorem AreLines.readText_flatten {lines : List Text} (h : AreLines lines) :
    readText false lines.flatten = (lines.map (readText false)).flatten := by
  induction lines with
  | nil => rfl
  | cons line lines ih =>
    have hrest : AreLines lines := h.drop 1
    obtain ⟨hnext, -⟩ := isChain_cons.mp h.2
    rw [flatten_cons, map_cons, flatten_cons, readText_append, ← ih hrest]
    congr 1
    by_cases hlast : line.getLast? = some cr
    · have hhead : lines.flatten.head? ≠ some lf := by
        rw [head?_flatten hrest.1]
        cases hl : lines.head? with
        | none => simp
        | some l => simpa using hnext l hl hlast
      simp [hlast, readText_true hhead]
    · have hfalse : (line.getLast?.map (· == cr)).getD false = false := by
        cases hl : line.getLast? with
        | none => rfl
        | some c =>
          rw [hl] at hlast
          simpa using hlast
      rw [hfalse]

/-- A text is read line end by line end, and otherwise character by character. -/
theorem text_induction {motive : Text → Prop} (nil : motive [])
    (crlf : ∀ text, motive text → motive (cr :: lf :: text))
    (lone : ∀ text, text.head? ≠ some lf → motive text → motive (cr :: text))
    (char : ∀ c text, c ≠ cr → motive text → motive (c :: text))
    (text : Text) :
    motive text := by
  induction hn : text.length using Nat.strong_induction_on generalizing text with
  | _ n ih =>
  subst hn
  match text with
  | [] => exact nil
  | c :: text =>
    have htext : motive text := ih text.length (by simp) text rfl
    by_cases hc : c = cr
    · subst hc
      match text with
      | [] => exact lone [] (by simp) htext
      | c' :: text =>
        by_cases hc' : c' = lf
        · subst hc'
          exact crlf text (ih text.length (by simp only [length_cons]; omega) text rfl)
        · exact lone _ (by simpa using hc') htext
    · exact char c text hc htext

section

variable {line : Text} {c : Char}

theorem isLineEnd_cr : isLineEnd cr = true := by decide

theorem isLineEnd_lf : isLineEnd lf = true := by decide

theorem lf_ne_cr : lf ≠ cr := by decide

theorem readText_crlf : readText false (cr :: lf :: text) = lf :: readText false text := by
  simp [readText, lf_ne_cr]

theorem readText_cr (h : text.head? ≠ some lf) :
    readText false (cr :: text) = lf :: readText false text := by
  rw [readText, if_pos rfl, readText_true h]

theorem readText_char (hc : c ≠ cr) : readText false (c :: text) = c :: readText false text := by
  simp [readText, hc]

theorem splitLines_char (hc : c ≠ cr) : splitLines line (c :: text)
    = if isLineEnd c then (line ++ [c]) :: splitLines [] text
      else splitLines (line ++ [c]) text := by
  have hne : (c == cr) = false := by simpa using hc
  simp only [splitLines, hne, Bool.false_and, Bool.not_false, Bool.and_true]

theorem splitLines_cr (h : text.head? ≠ some lf) :
    splitLines line (cr :: text) = (line ++ [cr]) :: splitLines [] text := by
  simp [splitLines, isLineEnd_cr, h]

theorem splitLines_crlf :
    splitLines line (cr :: lf :: text) = (line ++ [cr, lf]) :: splitLines [] text := by
  rw [splitLines, if_neg (by simp [isLineEnd_cr]), splitLines_char lf_ne_cr, if_pos isLineEnd_lf,
    append_assoc]
  rfl

/-- Text without carriage returns is kept in front of what is translated. -/
theorem readText_append_left (h : cr ∉ line) :
    readText false (line ++ text) = line ++ readText false text := by
  rw [readText_append, readText_eq h]
  cases hl : line.getLast? with
  | none => rfl
  | some c =>
    have hc : (c == cr) = false := by
      refine beq_eq_false_iff_ne.mpr fun hc => h ?_
      rw [← hc]
      exact mem_of_getLast? hl
    simp [hc]

/-- A translated text has the translated lines. -/
theorem splitLines_readText (hline : cr ∉ line) (text : Text) :
    splitLines line (readText false text) = (splitLines line text).map (readText false) := by
  have hnil : cr ∉ ([] : Text) := not_mem_nil
  induction text using text_induction generalizing line with
  | nil =>
    rw [readText, splitLines]
    split
    · rfl
    · rw [map_cons, map_nil, readText_eq hline]
  | crlf text ih =>
    rw [readText_crlf, splitLines_char lf_ne_cr, if_pos isLineEnd_lf, splitLines_crlf, map_cons,
      readText_append_left hline, ih hnil]
    rfl
  | lone text hhead ih =>
    rw [readText_cr hhead, splitLines_char lf_ne_cr, if_pos isLineEnd_lf,
      splitLines_cr hhead, map_cons, readText_append_left hline, ih hnil]
    rfl
  | char c text hc ih =>
    have hlast : cr ∉ line ++ [c] := by simpa [hline] using Ne.symm hc
    rw [readText_char hc, splitLines_char hc, splitLines_char hc]
    split
    · rw [map_cons, readText_eq hlast, ih hnil]
    · exact ih hlast

theorem strip_append (x : Text) {y : Text} (hy : ∀ c ∈ y, isSpace c) :
    strip (x ++ y) = strip x := by
  have hdrop : y.dropWhile isSpace = [] := dropWhile_eq_nil_iff.mpr hy
  have hrev : y.reverse.dropWhile isSpace = [] :=
    dropWhile_eq_nil_iff.mpr fun c hc => hy c (mem_reverse.mp hc)
  unfold strip
  rw [dropWhile_append]
  split
  · rename_i hx
    rw [hdrop, List.isEmpty_iff.mp hx]
  · rw [reverse_append, dropWhile_append, hrev]
    rfl

/-- A line is stripped alike before and after its end is translated. -/
theorem strip_readText {l : Text} (hline : cr ∉ line) (hl : l ∈ splitLines line text) :
    strip (readText false l) = strip l := by
  have hcr : isSpace cr = true := by rw [isSpace, isLineEnd_cr]; rfl
  have hlf : isSpace lf = true := by rw [isSpace, isLineEnd_lf]; rfl
  have hnil : cr ∉ ([] : Text) := not_mem_nil
  -- What is translated is white space behind the line.
  have hends {line y : Text} (hline : cr ∉ line) (hy : ∀ c ∈ y, isSpace c)
      (hy' : ∀ c ∈ readText false y, isSpace c) :
      strip (readText false (line ++ y)) = strip (line ++ y) := by
    rw [readText_append_left hline, strip_append line hy', strip_append line hy]
  induction text using text_induction generalizing line with
  | nil =>
    rw [splitLines] at hl
    split at hl
    · cases hl
    · rw [mem_singleton.mp hl, readText_eq hline]
  | crlf text ih =>
    rw [splitLines_crlf] at hl
    rcases mem_cons.mp hl with rfl | hl
    · exact hends hline (by simp [hcr, hlf]) (by simp [readText, lf_ne_cr, hlf])
    · exact ih hnil hl
  | lone text hhead ih =>
    rw [splitLines_cr hhead] at hl
    rcases mem_cons.mp hl with rfl | hl
    · exact hends hline (by simp [hcr]) (by simp [readText, hlf])
    · exact ih hnil hl
  | char c text hc ih =>
    have hlast : cr ∉ line ++ [c] := by simpa [hline] using Ne.symm hc
    rw [splitLines_char hc] at hl
    split at hl
    · rcases mem_cons.mp hl with rfl | hl
      · rw [readText_eq hlast]
      · exact ih hnil hl
    · exact ih hlast hl

/-! ### Documents -/

theorem markdownOf_crlf : markdownOf (cr :: lf :: text) = text := by
  simp [markdownOf]

theorem markdownOf_lf : markdownOf (lf :: text) = text := by
  simp [markdownOf, lf_ne_cr]

theorem markdownOf_cases (body : Text) :
    (∃ rest, body = cr :: lf :: rest) ∨ (∃ rest, body = lf :: rest) ∨ markdownOf body = body := by
  by_cases htake : body.take 2 = [cr, lf]
  · refine .inl ⟨body.drop 2, ?_⟩
    calc body = body.take 2 ++ body.drop 2 := (take_append_drop 2 body).symm
      _ = cr :: lf :: body.drop 2 := by rw [htake]; rfl
  by_cases hhead : body.head? = some lf
  · exact .inr (.inl ⟨body.tail, eq_cons_of_mem_head? hhead⟩)
  · exact .inr (.inr (by rw [markdownOf, if_neg htake, if_neg hhead]))

theorem mem_of_mem_markdownOf {body : Text} (h : c ∈ markdownOf body) : c ∈ body := by
  obtain ⟨rest, rfl⟩ | ⟨rest, rfl⟩ | heq := markdownOf_cases body
  · rw [markdownOf_crlf] at h
    exact mem_cons_of_mem _ (mem_cons_of_mem _ h)
  · rw [markdownOf_lf] at h
    exact mem_cons_of_mem _ h
  · exact heq ▸ h

/-- The two readings of a body have the same markdown just when the first has no carriage
returns. -/
theorem markdownOf_readText (body : Text) :
    markdownOf (readText false body) = markdownOf body ↔ cr ∉ markdownOf body := by
  constructor
  · intro h hcr
    rw [← h] at hcr
    exact cr_notMem_readText false body (mem_of_mem_markdownOf hcr)
  · intro h
    obtain ⟨rest, rfl⟩ | ⟨rest, rfl⟩ | heq := markdownOf_cases body
    · rw [markdownOf_crlf] at h ⊢
      rw [readText_crlf, markdownOf_lf, readText_eq h]
    · rw [markdownOf_lf] at h ⊢
      rw [readText_char lf_ne_cr, markdownOf_lf, readText_eq h]
    · rw [readText_eq (heq ▸ h)]

theorem findIdx?_isClosing {lines : List Text}
    (h : ∀ l ∈ lines, strip (readText false l) = strip l) :
    (lines.map (readText false)).findIdx? isClosing = lines.findIdx? isClosing := by
  induction lines with
  | nil => rfl
  | cons line lines ih =>
    have hclosing : isClosing (readText false line) = isClosing line := by
      rw [isClosing, isClosing, h line mem_cons_self]
    rw [map_cons, findIdx?_cons, findIdx?_cons, hclosing, ih fun l hl =>
      h l (mem_cons_of_mem line hl)]

/-- A loader that reads every line end as a line feed finds the same metadata in a translated
document. -/
theorem parseDocument_readText {M : Type} {load : Text → Option M} {blank m : M} {markdown : Text}
    (hload : ∀ raw, load (readText false raw) = load raw)
    (h : parseDocument load blank text = some (m, markdown)) :
    ∃ markdown', parseDocument load blank (readText false text) = some (m, markdown')
      ∧ (markdown' = markdown ↔ cr ∉ markdown) := by
  have hplain : readText false text = text ↔ cr ∉ text :=
    ⟨fun h => h ▸ cr_notMem_readText false text, readText_eq⟩
  have hnil : cr ∉ ([] : Text) := not_mem_nil
  obtain ⟨hdocument, -⟩ := splitLines_areLines [] text
  have hstrip : ∀ l ∈ splitLines [] text, strip (readText false l) = strip l := fun l =>
    strip_readText hnil
  unfold parseDocument at h ⊢
  rw [splitLines_readText hnil]
  cases hlines : splitLines [] text with
  | nil =>
    rw [hlines] at h
    cases h
    exact ⟨_, rfl, hplain⟩
  | cons first lines =>
    rw [hlines] at h hdocument hstrip
    simp only [map_cons, hstrip first mem_cons_self] at h ⊢
    split at h
    · rename_i hfirst
      cases h
      rw [if_pos hfirst]
      exact ⟨_, rfl, hplain⟩
    · rename_i hfirst
      have hfront : AreLines lines := hdocument.drop 1
      rw [if_neg hfirst, findIdx?_isClosing fun l hl => hstrip l (mem_cons_of_mem first hl)]
      obtain ⟨closing, hclosing, h⟩ := Option.bind_eq_some_iff.mp h
      obtain ⟨m', hm, h⟩ := Option.bind_eq_some_iff.mp h
      cases h
      refine ⟨_, ?_, markdownOf_readText _⟩
      simp only [hclosing, ← map_take, ← map_drop, ← (hfront.take closing).readText_flatten,
        ← (hfront.drop (closing + 1)).readText_flatten, hload, hm, Option.bind_eq_bind,
        Option.bind_some]

end

/-! ## Agreement -/

theorem lookup_map {α β : Type} (f : α → β) (key : Id) (entries : List (Id × α)) :
    (entries.map fun entry => (entry.1, f entry.2)).lookup key = (entries.lookup key).map f := by
  induction entries with
  | nil => rfl
  | cons entry entries ih =>
    rw [map_cons, lookup_cons, lookup_cons, ih]
    cases key == entry.1 <;> rfl

variable {load hash} {targets : List Id} {m : Metadata J D} {markdown : Text} {stored : Indexed J D}

/-- The index keeps for every target, its children given or not, the digest `main` computes. -/
theorem validateImplementations_ok
    (h : validateImplementations hash targets m markdown = .ok stored) :
    stored.metadata = m ∧ ∀ t, (stored.targetSha.lookup t).getD stored.nodeSha
      = fingerprint hash m markdown (m.childrenFor t) := by
  rw [validateImplementations] at h
  split at h
  · cases h
  cases hcheck : m.implementations.forM (checkImplementation targets) with
  | error e => rw [hcheck] at h; cases h
  | ok u =>
    rw [hcheck] at h
    cases h
    refine ⟨rfl, fun t => ?_⟩
    dsimp only
    rw [lookup_map (fun item : Implementation D => fingerprint hash m markdown item.children),
      Metadata.childrenFor]
    cases m.implementations.lookup t <;> rfl

theorem indexNode_ok (h : indexNode load hash targets text = .ok stored) :
    ∃ m markdown, parseDocument load {} text = some (m, markdown) ∧ stored.metadata = m
      ∧ ∀ t, (stored.targetSha.lookup t).getD stored.nodeSha
        = fingerprint hash m markdown (m.childrenFor t) := by
  rw [indexNode] at h
  split at h
  · cases h
  · exact ⟨_, _, ‹_›, validateImplementations_ok h⟩

variable [DecidableEq D]

theorem progressView_nodeSha (stored : Indexed J D) (t : Id) (library : Bool) :
    (progressView stored (some t) library).nodeSha
      = (stored.targetSha.lookup t).getD stored.nodeSha := by
  rw [progressView]
  split <;> rfl

theorem progressView_stale {t : Id} {r : Implementation D}
    (h : stored.metadata.implementations.lookup t = some r) (library : Bool) :
    ∃ shown, (progressView stored (some t) library).implementation = some shown
      ∧ shown.recorded = some r ∧ (shown.stale ↔ ∃ sha, r.nodeSha = some sha
        ∧ sha ≠ (progressView stored (some t) library).nodeSha) := by
  rw [progressView_nodeSha, progressView]
  split
  case isTrue hempty =>
    -- a record for the target makes the view scoped
    rw [List.isEmpty_iff.mp (Bool.and_eq_true_iff.mp hempty).1] at h
    cases h
  case isFalse =>
    refine ⟨_, rfl, h, ?_⟩
    simp only [Option.bind_some, h, Option.any_some]
    cases r.nodeSha <;> simp

/-- The command line prints the digest that is stored and compared for a target just when the
markdown of the document has no carriage returns, provided that the loader reads every line end as
a line feed; that digest depends on no label, no reserved key and no part of a record but the
children of the target, and a recorded claim is stale exactly when the digest it gives is not that
of the present content. -/
theorem progress_digest_agreement (hash_injective : hash.Injective)
    (hload : ∀ raw, load (readText false raw) = load raw) {file : Text}
    (h : indexNode load hash targets file = .ok stored) (t : Id) (library : Bool) :
    ∃ m markdown, parseDocument load {} file = some (m, markdown) ∧ stored.metadata = m
      ∧ (progressView stored (some t) library).nodeSha
        = fingerprint hash m markdown (m.childrenFor t)
      ∧ (printDigest load hash t file = some (progressView stored (some t) library).nodeSha
        ↔ cr ∉ markdown)
      ∧ (∀ edited : Metadata J D,
        (∀ key, isReserved key = false → edited.fields.lookup key = m.fields.lookup key) →
        edited.children = m.children → edited.childrenFor t = m.childrenFor t →
        fingerprint hash edited markdown (edited.childrenFor t)
          = fingerprint hash m markdown (m.childrenFor t))
      ∧ ∀ r, m.implementations.lookup t = some r →
        ∃ shown, (progressView stored (some t) library).implementation = some shown
          ∧ shown.recorded = some r
          ∧ (shown.stale ↔ ∃ sha, r.nodeSha = some sha
            ∧ sha ≠ fingerprint hash m markdown (m.childrenFor t))
          ∧ ∀ m₀ markdown₀ children₀, r.nodeSha = some (fingerprint hash m₀ markdown₀ children₀) →
            (shown.stale ↔
              m₀.content markdown₀ children₀ ≠ m.content markdown (m.childrenFor t)) := by
  obtain ⟨m, markdown, hparse, hm, hdigest⟩ := indexNode_ok h
  have hview := (progressView_nodeSha stored t library).trans (hdigest t)
  refine ⟨m, markdown, hparse, hm, hview, ?_, fun edited hfields hchildren htarget => ?_,
    fun r hr => ?_⟩
  · obtain ⟨markdown', hparse', hsame⟩ := parseDocument_readText hload hparse
    have hprint : printDigest load hash t file
        = some (fingerprint hash m markdown' (m.childrenFor t)) := by
      rw [printDigest, hparse']
      rfl
    rw [hprint, hview, Option.some.injEq, ← hsame]
    refine ⟨fun heq => ?_, fun heq => by rw [heq]⟩
    exact congrArg (·.2.2) (hash_injective heq)
  · refine congrArg hash (Prod.ext (funext fun key => ?_) ?_)
    · cases hkey : isReserved key <;> simp [Metadata.content, hkey, hfields key]
    · rw [Metadata.content, Metadata.content, htarget, hchildren]
  · obtain ⟨shown, hshown, hrecorded, hstale⟩ := progressView_stale (hm ▸ hr) library
    rw [hview] at hstale
    refine ⟨shown, hshown, hrecorded, hstale, fun m₀ markdown₀ children₀ hclaim => ?_⟩
    rw [hstale, hclaim]
    exact ⟨fun ⟨_, hsha, hne⟩ heq => hne (Option.some.inj hsha ▸ congrArg hash heq),
      fun hne => ⟨_, rfl, fun heq => hne (hash_injective heq)⟩⟩

end

/-- The digests of documents without further fields. -/
def sampleHash (content : Content Empty) : List String × Text := content.2

theorem sampleHash_injective : sampleHash.Injective :=
  fun _ _ h => Prod.ext (Subsingleton.elim _ _) h

/-- The front matter of the sample: the record of target 7 for a document whose text was `a`, with
that text in the place of its digest. -/
def sampleRecord : Text :=
  "implementations:\n  7:\n    status: in_progress\n    node_sha256: a".toList

/-- A loader of the sample's front matter and of an empty one. -/
def sampleLoad (raw : Text) : Option (Metadata Empty (List String × Text)) :=
  let front := strip (readText false raw)
  if front = [] then some {}
  else if front = sampleRecord then
    some { implementations := [(7, { status := .inProgress, nodeSha := some ([], ['a']) })] }
  else none

theorem sampleLoad_readText (raw : Text) : sampleLoad (readText false raw) = sampleLoad raw := by
  rw [sampleLoad, readText_eq (cr_notMem_readText false raw), sampleLoad]

def sampleFile (text : Text) : Text :=
  "---".toList ++ lf :: (sampleRecord ++ lf :: ("---".toList ++ lf :: text))

theorem sample_claim_stale :
    ∃ stored, indexNode sampleLoad sampleHash [7] (sampleFile ['b']) = .ok stored
      ∧ printDigest sampleLoad sampleHash 7 (sampleFile ['b'])
        = some (progressView stored (some 7) false).nodeSha
      ∧ ∃ shown, (progressView stored (some 7) false).implementation = some shown
      ∧ shown.stale := by
  have hisOk : (indexNode sampleLoad sampleHash [7] (sampleFile ['b'])).isOk = true := by
    decide +kernel
  have hparse : (parseDocument sampleLoad {} (sampleFile ['b'])).all (fun p => p.2 == ['b']
      && (p.1.implementations.lookup 7).any (·.nodeSha == some ([], ['a']))
      && (p.1.childrenFor 7).isNone) = true := by decide +kernel
  cases h : indexNode sampleLoad sampleHash [7] (sampleFile ['b']) with
  | error e => rw [h] at hisOk; cases hisOk
  | ok stored =>
    obtain ⟨m, markdown, hdocument, -, -, hprint, -, hrecord⟩ :=
      progress_digest_agreement sampleHash_injective sampleLoad_readText h 7 false
    simp only [hdocument, Option.all_some, Bool.and_eq_true, beq_iff_eq, Option.any_eq_true,
      Option.isNone_iff_eq_none] at hparse
    obtain ⟨⟨rfl, r, hr, hsha⟩, htarget⟩ := hparse
    obtain ⟨shown, hshown, -, hstale, -⟩ := hrecord r hr
    refine ⟨stored, rfl, hprint.mpr (by decide), shown, hshown, hstale.mpr ⟨_, hsha, ?_⟩⟩
    simp [fingerprint, sampleHash, Metadata.content, htarget]

/-- With a carriage return, the digest that is printed is not the one that is compared. -/
theorem crlf_digest_differs : sampleHash.Injective
    ∧ (∀ raw, sampleLoad (readText false raw) = sampleLoad raw)
    ∧ (indexNode sampleLoad sampleHash [7] (sampleFile ['a', cr, lf])).toOption.any (fun stored =>
      decide (printDigest sampleLoad sampleHash 7 (sampleFile ['a', cr, lf])
        ≠ some (progressView stored (some 7) false).nodeSha)) = true :=
  ⟨sampleHash_injective, sampleLoad_readText, by decide +kernel⟩

end Horizon.GraphProgress
