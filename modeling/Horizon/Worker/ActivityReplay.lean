import Horizon.Library.Lines
import Horizon.Library.System
import Horizon.Persistence.Schema

/-!
# Replaying the retained output of providers

`activity_replay.py`: a bridge reads the retained output of provider requests, enqueues an operation
for every line it can display, and saves a cursor behind the line.  Journal and cursors are separate
databases, so a crash may fall between the two commits.

The identifier of an operation is made of the request and of the offset of its line.  Only
operations of the bridge are modelled.  What `display_event` makes of a line is a parameter.
-/

namespace Horizon.ActivityReplay

open List Lines System

/-- 1 MiB. -/
def maxLine : Nat := 1024 * 1024

def newline : UInt8 := 10

/-- An enqueued observation of the line at an offset. -/
structure Operation (δ : Type) where
  request : Id
  start : Nat
  display : δ
  occurredAt : Instant

def Operation.key {δ : Type} (op : Operation δ) : Id × Nat := (op.request, op.start)

/-- Where `replay_once` is. -/
structure Pass where
  request : Id
  /-- The offset of the stream. -/
  position : Nat
  /-- The offset behind a line that was read, until it is saved. -/
  unsaved : Option Nat
  /-- The lines that the request may still be read for. -/
  left : Nat
  /-- The requests behind this one. -/
  rest : List Id
  emitted : Nat
  scanned : Nat
  limit : Nat

structure Host (δ : Type) where
  /-- `stdout.jsonl` of a request; empty where there is none. -/
  files : Id → List UInt8 := fun _ => []
  /-- The saved offsets. -/
  cursors : Id → Nat := fun _ => 0
  /-- The operations of the journal. -/
  operations : List (Operation δ) := []
  pass : Option Pass := none
  /-- Every operation that was ever enqueued. -/
  enqueued : List (Operation δ) := []

inductive Step (δ : Type) where
  /-- A provider writes. -/
  | append (request : Id) (bytes : List UInt8)
  | begin (requests : List Id) (limit : Nat)
  /-- The next line is read and, if it can be displayed, enqueued; the journal may be full. -/
  | line (now : Instant) (full : Bool)
  /-- The cursor is committed. -/
  | save
  | crash
  /-- `journal.compact` deletes acknowledged operations. -/
  | compact (acknowledged : Operation δ → Bool)

namespace Host

variable {δ : Type} (display : Id → List UInt8 → Option δ) (s : Host δ)

/-- Go on with the next request. -/
def visit (emitted scanned limit : Nat) : List Id → Host δ
  | [] => { s with pass := none }
  | request :: rest =>
    let position := s.cursors request
    { s with
      pass :=
        some { request, position, unsaved := none, left := 500, rest, emitted, scanned, limit } }

/-- Read a line of the request at hand. -/
def readLine (p : Pass) (now : Instant) (full : Bool) : Host δ :=
  let line := readline newline (maxLine + 1) ((s.files p.request).drop p.position)
  let scanned := p.scanned + line.length
  if line = [] ∨ (line.length ≤ maxLine ∧ line.getLast? ≠ some newline) then
    s.visit p.emitted scanned p.limit p.rest
  else
    let read := { p with unsaved := some (p.position + line.length), scanned }
    match if line.length ≤ maxLine then display p.request line else none with
    | none => { s with pass := some read }
    | some shown =>
      let op : Operation δ := ⟨p.request, p.position, shown, now⟩
      if s.operations.any (·.key == op.key) then { s with pass := some read }
      else if full then { s with pass := none }
      else { s with operations := s.operations ++ [op], enqueued := s.enqueued ++ [op],
                    pass := some { read with emitted := p.emitted + 1 } }

def next : Step δ → Option (Host δ)
  | .append request bytes =>
    some { s with files := Function.update s.files request (s.files request ++ bytes) }
  | .begin requests limit => if s.pass.isSome then none else some (s.visit 0 0 limit requests)
  | .line now full => s.pass.bind fun p =>
    if p.unsaved.isSome then none
    else if p.left = 0 then some (s.visit p.emitted p.scanned p.limit p.rest)
    else some (s.readLine display p now full)
  | .save => s.pass.bind fun p => p.unsaved.map fun position =>
    { s with cursors := Function.update s.cursors p.request position
             pass := if p.limit ≤ p.emitted ∨ 8 * 1024 * 1024 ≤ p.scanned then none
               else some { p with position, unsaved := none, left := p.left - 1 } }
  | .crash => some { s with pass := none }
  | .compact acknowledged => some { s with operations := s.operations.filter (!acknowledged ·) }

/-- The condition: no line has more than 1 MiB before its newline, and the journal forgets an
operation only when the cursor is behind its line. -/
def orderly : Step δ → Prop
  | .append request bytes => Short newline maxLine (s.files request ++ bytes)
  | .compact acknowledged => ∀ op ∈ s.operations, acknowledged op → op.start < s.cursors op.request
  | _ => True

end Host

/-- The bridge on a host that has no output yet. -/
def bridge {δ : Type} (display : Id → List UInt8 → Option δ) : System (Host δ) (Step δ) :=
  ofFun {} (Host.next display)

/-! ## What a bridge keeps -/

variable {δ : Type} {display : Id → List UInt8 → Option δ} {s s' : Host δ} {request : Id}

/-- The line at an offset is enqueued, if it can be displayed. -/
def Host.Covers (display : Id → List UInt8 → Option δ) (s : Host δ) (request : Id) (start : Nat)
    (line : List UInt8) : Prop :=
  ∀ shown, line.length ≤ maxLine → display request line = some shown →
    ∃ op ∈ s.enqueued, op.key = (request, start) ∧ op.display = shown

/-- An operation shows a whole line. -/
def Host.Whole (display : Id → List UInt8 → Option δ) (s : Host δ) (op : Operation δ) : Prop :=
  ∃ line, LineAt newline (s.files op.request) op.start line ∧ line.length ≤ maxLine
    ∧ display op.request line = some op.display

structure Host.Orderly (display : Id → List UInt8 → Option δ) (s : Host δ) : Prop where
  short : ∀ request, Short newline maxLine (s.files request)
  begins : ∀ request, Begins newline (s.files request) (s.cursors request)
  whole : ∀ op ∈ s.enqueued, s.Whole display op
  once : (s.enqueued.map Operation.key).Nodup
  known : ∀ op ∈ s.operations, op ∈ s.enqueued
  /-- The journal has what the cursor has not passed. -/
  kept : ∀ op ∈ s.enqueued, s.cursors op.request ≤ op.start → op ∈ s.operations
  passed : ∀ {request start line}, LineAt newline (s.files request) start line →
    start < s.cursors request → s.Covers display request start line
  saved : ∀ p, s.pass = some p → p.position = s.cursors p.request
  read : ∀ p position, s.pass = some p → p.unsaved = some position →
    ∃ line, LineAt newline (s.files p.request) p.position line ∧ position = p.position + line.length
      ∧ s.Covers display p.request p.position line

namespace Host.Orderly

section

variable (h : s.Orderly display)

include h

/-- Only the pass changes. -/
theorem with_pass {pass : Option Pass}
    (hsaved : ∀ p, pass = some p → p.position = s.cursors p.request)
    (hread : ∀ p position, pass = some p → p.unsaved = some position →
      ∃ line, LineAt newline (s.files p.request) p.position line
        ∧ position = p.position + line.length
        ∧ s.Covers display p.request p.position line) : Host.Orderly display { s with pass } :=
  { h with saved := hsaved, read := hread }

theorem stopped : Host.Orderly display { s with pass := none } :=
  h.with_pass nofun nofun

theorem visit (emitted scanned limit : Nat) (requests : List Id) :
    (s.visit emitted scanned limit requests).Orderly display := by
  cases requests with
  | nil => exact h.stopped
  | cons _ _ =>
    refine h.with_pass ?_ ?_
    · rintro _ ⟨⟩
      rfl
    · rintro _ _ ⟨⟩ ⟨⟩

/-- Files grow. -/
theorem grown {files : Id → List UInt8}
    (hfiles : ∀ r, ∃ more, files r = s.files r ++ more)
    (hshort : ∀ r, Short newline maxLine (files r)) : Host.Orderly display { s with files } := by
  have hline : ∀ {r start line}, LineAt newline (s.files r) start line →
      LineAt newline (files r) start line := by
    intro r start line hline
    obtain ⟨more, hmore⟩ := hfiles r
    rw [hmore]
    exact hline.append
  refine { h with short := hshort, begins := fun r => ?_, whole := fun op hop => ?_,
                  passed := fun {r start line} hat hlt => ?_,
                  read := fun p position hp hposition => ?_ }
  · obtain ⟨more, hmore⟩ := hfiles r
    dsimp only
    rw [hmore]
    exact (h.begins r).append
  · obtain ⟨line, hat, hrest⟩ := h.whole op hop
    exact ⟨line, hline hat, hrest⟩
  · obtain ⟨more, hmore⟩ := hfiles r
    dsimp only at hat
    rw [hmore] at hat
    exact h.passed (hat.of_append (h.begins r) hlt) hlt
  · obtain ⟨line, hat, hrest⟩ := h.read p position hp hposition
    exact ⟨line, hline hat, hrest⟩

theorem append {bytes : List UInt8}
    (hshort : Short newline maxLine (s.files request ++ bytes)) :
    Host.Orderly display
      { s with files := Function.update s.files request (s.files request ++ bytes) } := by
  refine h.grown ?_ ?_
  · exact (Function.forall_update_iff _ fun r file => ∃ more, file = s.files r ++ more).mpr
      ⟨⟨bytes, rfl⟩, fun r _ => ⟨[], (append_nil _).symm⟩⟩
  · exact (Function.forall_update_iff _ fun _ file => Short newline maxLine file).mpr
      ⟨hshort, fun r _ => h.short r⟩

/-- The cursor moves behind the line that was read. -/
theorem save {p : Pass} {position : Nat} (hp : s.pass = some p)
    (hposition : p.unsaved = some position) {pass : Option Pass}
    (hpass : ∀ p', pass = some p' → p'.request = p.request ∧ p'.position = position
      ∧ p'.unsaved = none) :
    Host.Orderly display
      { s with cursors := Function.update s.cursors p.request position, pass } := by
  obtain ⟨_, hat, rfl, hcovers⟩ := h.read p position hp hposition
  have hsaved := h.saved p hp
  refine { h with begins := fun r => ?_, kept := fun op hop hle => ?_,
                  passed := fun {r start line'} hat' hlt => ?_,
                  saved := fun p' hp' => ?_, read := fun p' position hp' hposition => ?_ }
  · exact (Function.forall_update_iff _ fun r cursor => Begins newline (s.files r) cursor).mpr
      ⟨hat.next, fun r _ => h.begins r⟩ r
  · refine h.kept op hop (le_trans ?_ hle)
    exact (Function.forall_update_iff _ fun r cursor => s.cursors r ≤ cursor).mpr
      ⟨by omega, fun r _ => le_rfl⟩ op.request
  · refine (Function.forall_update_iff s.cursors fun r cursor =>
      LineAt newline (s.files r) start line' →
      start < cursor → s.Covers display r start line').mpr ⟨fun hat' hlt => ?_, fun r _ =>
        h.passed⟩ r hat' hlt
    by_cases hold : start < s.cursors p.request
    · exact h.passed hat' hold
    · -- No line begins within the line that was read.
      obtain rfl : start = p.position := by
        by_contra hne
        have := hat.le_of_lt hat'.begins (by omega)
        omega
      exact hat.unique hat' ▸ hcovers
  · obtain ⟨hrequest, hposition, -⟩ := hpass p' hp'
    rw [hrequest, hposition]
    exact (Function.update_self p.request _ s.cursors).symm
  · cases (hpass p' hp').2.2.symm.trans hposition

/-- The journal forgets what the cursor has passed. -/
theorem compact {acknowledged : Operation δ → Bool}
    (hguard : ∀ op ∈ s.operations, acknowledged op = true → op.start < s.cursors op.request) :
    Host.Orderly display { s with operations := s.operations.filter (!acknowledged ·) } := by
  refine { h with known := fun op hop => h.known op (mem_of_mem_filter hop),
                  kept := fun op hop hle => ?_ }
  have hmem := h.kept op hop hle
  refine mem_filter.mpr ⟨hmem, ?_⟩
  rw [Bool.not_eq_true']
  exact Bool.eq_false_iff.mpr fun hack => absurd (hguard op hmem hack) (by simpa using hle)

/-- A line is enqueued that the journal does not have. -/
theorem enqueue {op : Operation δ} (hwhole : s.Whole display op)
    (hnew : ∀ op' ∈ s.operations, op'.key ≠ op.key) (hcursor : s.cursors op.request = op.start) :
    Host.Orderly display
      { s with operations := s.operations ++ [op], enqueued := s.enqueued ++ [op] } := by
  have hkey : ∀ op' ∈ s.enqueued, op'.key ≠ op.key := by
    intro op' hop' hkey
    have hstart : op'.start = op.start := congrArg Prod.snd hkey
    have hrequest : op'.request = op.request := congrArg Prod.fst hkey
    exact hnew op' (h.kept op' hop' (by rw [hrequest, hcursor, hstart])) hkey
  have hcovers : ∀ {r start line}, s.Covers display r start line →
      Host.Covers display { s with operations := s.operations ++ [op],
                                   enqueued := s.enqueued ++ [op] } r start
        line := by
    intro r start line hcovers shown hlength hshown
    obtain ⟨op', hop', h'⟩ := hcovers shown hlength hshown
    exact ⟨op', mem_append_left _ hop', h'⟩
  refine { h with whole := ?_, once := ?_, known := ?_, kept := ?_,
                  passed := fun hat hlt => hcovers (h.passed hat hlt),
                  read := fun p position hp hposition => ?_ }
  · exact forall_mem_append.mpr ⟨h.whole, fun op' hop' => mem_singleton.mp hop' ▸ hwhole⟩
  · rw [map_append]
    refine h.once.append (nodup_singleton _) ?_
    simpa using hkey
  · exact forall_mem_append.mpr ⟨fun op hop => mem_append_left _ (h.known op hop), by simp⟩
  · exact forall_mem_append.mpr ⟨fun op hop hle => mem_append_left _ (h.kept op hop hle), by simp⟩
  · obtain ⟨line, hat, hrest, hcover⟩ := h.read p position hp hposition
    exact ⟨line, hat, hrest, hcovers hcover⟩

/-- The pass has read a line, which is enqueued if it can be displayed. -/
theorem reading {p : Pass} {line : List UInt8} (hsaved : p.position = s.cursors p.request)
    (hat : LineAt newline (s.files p.request) p.position line)
    (hcovers : s.Covers display p.request p.position line) (emitted scanned : Nat) :
    Host.Orderly display { s with
      pass := some { p with unsaved := some (p.position + line.length), emitted, scanned } } := by
  refine h.with_pass ?_ ?_
  · rintro _ ⟨⟩
    exact hsaved
  · rintro _ _ ⟨⟩ ⟨⟩
    exact ⟨line, hat, rfl, hcovers⟩

theorem readLine {p : Pass} (hp : s.pass = some p) {now : Instant} {full : Bool} :
    (s.readLine display p now full).Orderly display := by
  have hsaved := h.saved p hp
  rw [Host.readLine]
  dsimp only
  split
  · exact h.visit ..
  rename_i hbreak
  obtain hat | ⟨hnl, hlength⟩ := readline_cases (h.short p.request) (hsaved ▸ h.begins p.request)
  · generalize readline newline (maxLine + 1) ((s.files p.request).drop p.position) = line at hat
    split
    · rename_i hnone
      refine h.reading hsaved hat (fun shown hlength hshown => ?_) ..
      rw [if_pos hlength, hshown] at hnone
      cases hnone
    rename_i shown hsome
    obtain ⟨hlength, hshown⟩ := Option.ite_none_right_eq_some.mp hsome
    have hcovers : ∀ {s' : Host δ},
        (∃ op ∈ s'.enqueued, op.key = (p.request, p.position) ∧ op.display = shown) →
        s'.Covers display p.request p.position line := by
      intro s' hop _ _ hshown'
      cases hshown.symm.trans hshown'
      exact hop
    split
    · -- The journal has the operation already, and it shows the same line.
      rename_i hany
      obtain ⟨op, hop, hkey⟩ := any_eq_true.mp hany
      obtain ⟨hrequest, hstart⟩ : op.request = p.request ∧ op.start = p.position := by
        simpa [Operation.key] using hkey
      obtain ⟨_, hat', -, hdisplay⟩ := h.whole op (h.known op hop)
      rw [hrequest, hstart] at hat'
      rw [hat'.unique hat, hrequest, hshown] at hdisplay
      cases hdisplay
      exact h.reading hsaved hat (hcovers ⟨op, h.known op hop, beq_iff_eq.mp hkey, rfl⟩) ..
    · rename_i hany
      split
      · exact h.stopped
      · refine (h.enqueue ⟨line, hat, hlength, hshown⟩ (fun op' hop' hkey => ?_)
          hsaved.symm).reading hsaved hat
          (hcovers ⟨_, mem_append_right _ (mem_singleton_self _), rfl, rfl⟩) ..
        exact hany (any_eq_true.mpr ⟨op', hop', beq_iff_eq.mpr hkey⟩)
  · exact absurd (.inr ⟨hlength, fun hlast => hnl (mem_of_getLast? hlast)⟩) hbreak

theorem next {step : Step δ} (hguard : s.orderly step)
    (hnext : s.next display step = some s') : s'.Orderly display := by
  cases step with
  | append _ _ =>
    cases hnext
    exact h.append hguard
  | begin _ _ =>
    simp only [Host.next] at hnext
    split at hnext
    · cases hnext
    · cases hnext
      exact h.visit ..
  | line now _ =>
    obtain ⟨p, hp, hnext⟩ := Option.bind_eq_some_iff.mp hnext
    split at hnext
    · cases hnext
    · split at hnext
      · cases hnext
        exact h.visit ..
      · cases hnext
        exact h.readLine hp
  | save =>
    obtain ⟨p, hp, hnext⟩ := Option.bind_eq_some_iff.mp hnext
    obtain ⟨_, hposition, rfl⟩ := Option.map_eq_some_iff.mp hnext
    refine h.save hp hposition fun p' hp' => ?_
    split at hp'
    · cases hp'
    · cases hp'
      exact ⟨rfl, rfl, rfl⟩
  | crash =>
    cases hnext
    exact h.stopped
  | compact _ =>
    cases hnext
    exact h.compact hguard

end

theorem initial : Host.Orderly display {} where
  short _ body hbody _ := by rw [eq_nil_of_infix_nil hbody]; exact Nat.zero_le _
  begins _ := ⟨le_rfl, .inl rfl⟩
  whole _ h := absurd h not_mem_nil
  once := nodup_nil
  known _ h := absurd h not_mem_nil
  kept _ h := absurd h not_mem_nil
  passed _ h := absurd h (Nat.not_lt_zero _)
  saved := nofun
  read := nofun

end Host.Orderly

/-- In every run that meets the condition: a line is enqueued at most once, and the journal has what
was observed first; the cursor has only passed lines that are enqueued if they can be displayed and
have at most 1 MiB; and every operation shows a whole line. -/
theorem lines_enqueued (hs : (bridge display).ReachableBy Host.orderly s) :
    (s.enqueued.map Operation.key).Nodup ∧ (∀ op ∈ s.operations, op ∈ s.enqueued) ∧
    (∀ request start line, LineAt newline (s.files request) start line → start < s.cursors request →
      s.Covers display request start line) ∧
    ∀ op ∈ s.enqueued, s.Whole display op := by
  have h : s.Orderly display := hs.invariant (by rintro _ rfl; exact .initial) fun _ _ _ h => h.next
  exact ⟨h.once, h.known, fun _ _ _ => h.passed, h.whole⟩

/-- The line `{"type":"error","message":"m"}` of a provider. -/
def errorLine : List UInt8 :=
  "\x7b\"type\":\"error\",\"message\":\"m\"\x7d\n".toList.map fun c => UInt8.ofNat c.toNat

/-- Category, title and detail of what `display_event` shows of this line. -/
def showsError (_ : Id) (line : List UInt8) : Option (List String) :=
  if line = errorLine then some ["failure", "Provider error", "\"m\""] else none

/-- What is enqueued of this line. -/
def errorOperation (start : Nat) : Operation (List String) :=
  ⟨0, start, ["failure", "Provider error", "\"m\""], 7⟩

/-- A line is observed and its cursor saved. -/
theorem lines_enqueued_sample : ∃ s : Host (List String), s.enqueued = [errorOperation 0]
    ∧ s.cursors 0 = errorLine.length ∧ (s.enqueued.map Operation.key).Nodup
    ∧ ∀ op ∈ s.enqueued, s.Whole showsError op := by
  have hs : ∃ s, (bridge showsError).ReachableBy Host.orderly s ∧ s.enqueued = [errorOperation 0]
      ∧ s.cursors 0 = errorLine.length :=
    ⟨_, .step (l := .save) (.step (l := .line 7 false) (.step (l := .begin [0] 200)
      (.step (l := .append 0 errorLine) (.init rfl)
        (fun _ h _ => h.length_le.trans (by decide)) rfl)
      trivial rfl) trivial rfl) trivial rfl, rfl, rfl⟩
  obtain ⟨s, hs, henqueued, hcursor⟩ := hs
  obtain ⟨honce, -, -, hwhole⟩ := lines_enqueued hs
  exact ⟨s, henqueued, hcursor, honce, hwhole⟩

/-- A line of more than 1 MiB: the rest of it is read, and enqueued, as a line of its own. -/
theorem oversized_line_enqueued : ∃ s : Host (List String), (bridge showsError).Reachable s
    ∧ s.files 0 = replicate (maxLine + 1) 120 ++ errorLine
    ∧ ∃ op ∈ s.enqueued, ¬ s.Whole showsError op := by
  let file : List UInt8 := replicate (maxLine + 1) 120 ++ errorLine
  let p : Pass := ⟨0, 0, none, 500, [], 0, 0, 200⟩
  let s : Host (List String) := { files := Function.update (fun _ => []) 0 file, pass := some p }
  have hfirst : readline newline (maxLine + 1) file = replicate (maxLine + 1) 120 :=
    readline_replicate (by decide)
  have hread : s.next showsError (.line 7 false) =
      some { s with
        pass := some { p with unsaved := some (maxLine + 1), scanned := maxLine + 1 } } := by
    have hlong : ¬ maxLine + 1 ≤ maxLine := by omega
    simp [Host.next, Host.readLine, s, p, hfirst, hlong]
  let s' : Host (List String) := { s with
    cursors := Function.update (fun _ => 0) 0 (maxLine + 1)
    pass := some { p with position := maxLine + 1, left := 499, scanned := maxLine + 1 } }
  have hsecond : file.drop (maxLine + 1) = errorLine := by simp [file]
  have hrest : s'.next showsError (.line 7 false) = some { s' with
      operations := [errorOperation (maxLine + 1)], enqueued := [errorOperation (maxLine + 1)]
      pass := some { p with position := maxLine + 1, left := 499, emitted := 1
                            scanned := maxLine + 1 + errorLine.length
                            unsaved := some (maxLine + 1 + errorLine.length) } } := by
    have hline : readline newline (maxLine + 1) errorLine = errorLine := rfl
    simp only [Host.next, Host.readLine, s', s, p, Function.update_self, Option.bind_some, hsecond,
      hline]
    rfl
  refine ⟨_,
    .step (l := .line 7 false) (s := s') (.step (l := .save) (.step (l := .line 7 false) (s := s)
    (.step (l := .begin [0] 200) (.step (l := .append 0 file) (.init rfl) trivial rfl) trivial rfl)
    trivial hread) trivial rfl) trivial hrest, rfl, _, mem_singleton_self _, ?_⟩
  rintro ⟨line, hat, -⟩
  obtain hzero | hnl := hat.begins.2
  · cases hzero
  · have hbyte : file[maxLine]? = some 120 := by simp [file, getElem?_append_left]
    cases hbyte.symm.trans hnl

end Horizon.ActivityReplay
