import Horizon.Library.Keyset
import Horizon.Persistence.Schema
import Mathlib.Logic.Equiv.List
import Mathlib.Data.Prod.Lex

/-!
# Pages of the dashboard

`readmodels.page`: a query is read in pages, in the order of a column, of a secondary column where
there is one, and of the row's identifier.  A page that leaves rows ends with a checkpoint of its
last row, and the next page asks for the rows behind the checkpoint.

The text forms of the standard library are a parameter, `Formats`, with the laws they document: what
is written is read back, and base64 is padded to a multiple of four characters.  A cursor is passed
without the padding.  No column that pages are ordered by holds nulls.
-/

namespace Horizon.Pages

open List Keyset

/-- A member of a checkpoint: a text, an integer, or any other JSON value. -/
inductive Scalar where
  | text (s : String)
  | number (n : Int)
  | other

/-- The text forms a checkpoint is made of. -/
structure Formats where
  /-- `str` of a `UUID`. -/
  str : Id → String
  UUID : String → Option Id
  UUID_str : ∀ id, UUID (str id) = some id
  isoformat : Instant → String
  /-- The instant, and whether the text has a timezone. -/
  fromisoformat : String → Option (Instant × Bool)
  fromisoformat_isoformat : ∀ t, fromisoformat (isoformat t) = some (t, true)
  /-- `urlsafe_b64encode` of `json.dumps`. -/
  encode : List (String × Scalar) → String
  /-- The object that `urlsafe_b64decode` and `json.loads` make of a text; none where it is not
  base64, not JSON or no object. -/
  decode : String → Option (List (String × Scalar))
  decode_encode : ∀ fields, (fields.map Prod.fst).Nodup → decode (encode fields) = some fields
  encode_padded : ∀ fields, ∃ body padding,
    encode fields = String.ofList (body ++ replicate padding '=')
    ∧ body ≠ [] ∧ '=' ∉ body ∧ padding < 4 ∧ (body.length + padding) % 4 = 0

/-- `rstrip("=")`. -/
def unpad (s : String) : String := String.ofList (s.toList.reverse.dropWhile (· == '=')).reverse

/-- A cursor, and `"=" * (-len(cursor) % 4)` behind it. -/
def pad (s : String) : String := s ++ String.ofList (replicate ((4 - s.length % 4) % 4) '=')

theorem unpad_padded {body : List Char} (h : '=' ∉ body) (padding : Nat) :
    unpad (String.ofList (body ++ replicate padding '=')) = String.ofList body := by
  rw [unpad, String.toList_ofList, reverse_append, reverse_replicate,
    dropWhile_append_of_pos fun c hc => beq_iff_eq.mpr (eq_of_mem_replicate hc)]
  congr 1
  rw [← mem_reverse] at h
  rw [reverse_eq_iff]
  cases hrev : body.reverse with
  | nil => rfl
  | cons c rest =>
    rw [hrev, mem_cons, not_or] at h
    exact dropWhile_cons_of_neg fun hc => h.1 (beq_iff_eq.mp hc).symm

namespace Formats

variable (F : Formats) (fields : List (String × Scalar))

/-- The padding that is stripped is added again. -/
theorem pad_unpad_encode : pad (unpad (F.encode fields)) = F.encode fields := by
  obtain ⟨body, padding, heq, -, hbody, hlt, hmod⟩ := F.encode_padded fields
  have hpadding : (4 - body.length % 4) % 4 = padding := by omega
  rw [heq, unpad_padded hbody, pad, String.length_ofList, hpadding, String.ofList_append]

theorem unpad_encode_ne_empty : unpad (F.encode fields) ≠ "" := by
  obtain ⟨body, padding, heq, hne, hbody, -⟩ := F.encode_padded fields
  rw [heq, unpad_padded hbody]
  exact fun h => hne (by simpa using congrArg String.toList h)

end Formats

variable {α κ τ : Type} {id : α → Id}

/-- A column that rows are ordered by. -/
structure Column (id : α → Id) (κ : Type) where
  value : α → κ
  /-- `json_value` of a value. -/
  write : κ → Scalar
  /-- What `page` makes of the identifier and of the value of a checkpoint. -/
  read : Id → Option Scalar → Option κ
  read_write : ∀ row, read (id row) (some (write (value row))) = some (value row)

namespace Column

/-- `order="id"`, which takes the identifier of the checkpoint. -/
def identifier (F : Formats) : Column id Id where
  value := id
  write value := .text (F.str value)
  read lastId _ := some lastId
  read_write _ := rfl

/-- An integer column. -/
def integer (value : α → Int) : Column id Int where
  value
  write := .number
  read
    | _, some (.number n) => some n
    | _, _ => none
  read_write _ := rfl

/-- A column of instants. -/
def datetime (F : Formats) (value : α → Instant) : Column id Instant where
  value
  write t := .text (F.isoformat t)
  read
    | _, some (.text s) => (F.fromisoformat s).bind fun (t, aware) => if aware then some t else none
    | _, _ => none
  read_write row := by simp [F.fromisoformat_isoformat]

end Column

/-- The keyword arguments of `page`, and the identifier of a row. -/
structure Ordering (α κ τ : Type) where
  id : α → Id
  order : Column id κ
  tieOrder : Option (Column id τ)
  descending : Bool

structure Page (α : Type) where
  items : List α
  nextCursor : Option String

structure DomainError where
  code : String
  message : String
  status : Nat

variable [LinearOrder κ] [LinearOrder τ]

namespace Ordering

variable (F : Formats) (o : Ordering α κ τ)

/-- The columns of the order; there is no secondary value where there is no secondary column. -/
def columns (row : α) : κ ×ₗ (WithBot τ ×ₗ Id) :=
  toLex (o.order.value row,
    toLex (o.tieOrder.elim ⊥ fun tie => (tie.value row : WithBot τ), o.id row))

/-- The order of the columns, each reversed for a descending page. -/
def lt (a b : κ ×ₗ (WithBot τ ×ₗ Id)) : Prop := if o.descending then b < a else a < b

instance : DecidableRel o.lt := fun a b =>
  inferInstanceAs (Decidable (if o.descending then b < a else a < b))

/-- The rows behind a cursor, as a condition of the query; none for an invalid cursor. -/
def condition (cursor : String) : Option (α → Bool) := do
  let decoded ← F.decode (pad cursor)
  let some (.text text) := decoded.lookup "id" | none
  let lastId ← F.UUID text
  let value ← o.order.read lastId (decoded.lookup "value")
  let column := o.order.value
  match o.tieOrder with
  | some tie =>
    let tieValue ← tie.read lastId (decoded.lookup "tie_value")
    let left row := toLex (column row, toLex (tie.value row, o.id row))
    let right := toLex (value, toLex (tieValue, lastId))
    some fun row => if o.descending then left row < right else right < left row
  | none =>
    some fun row =>
      if o.descending then column row < value ∨ column row = value ∧ o.id row < lastId
      else value < column row ∨ column row = value ∧ lastId < o.id row

/-- The cursor behind a row. -/
def checkpoint (row : α) : String :=
  unpad (F.encode ([("id", .text (F.str (o.id row))), ("value", o.order.write (o.order.value row))]
    ++ (o.tieOrder.map fun tie => ("tie_value", tie.write (tie.value row))).toList))

/-- The rows of the query behind a cursor; an empty cursor is none. -/
def query (rows : Table o.id) (cursor : Option String) : Except DomainError (List α) :=
  match cursor.filter (· ≠ "") with
  | none => pure rows.rows
  | some cursor =>
    match o.condition F cursor with
    | some condition => pure (rows.rows.filter condition)
    | none => throw ⟨"invalid_cursor", "Invalid page cursor", 422⟩

def page (rows : Table o.id) (cursor : Option String) (limit : Nat) :
    Except DomainError (Page α) := do
  unless 1 ≤ limit ∧ limit ≤ 100 do
    throw ⟨"invalid_limit", "Page size must be between 1 and 100", 422⟩
  let rows ← o.query F rows cursor
  let rows := (rows.insertionSort fun a b => ¬ o.lt (o.columns b) (o.columns a)).take (limit + 1)
  if rows.length > limit then
    pure ⟨rows.take limit, (rows.take limit).getLast?.map (o.checkpoint F)⟩
  else pure ⟨rows, none⟩

/-- Following `next_cursor` from a cursor to the last page.  The table may be another one at every
page. -/
inductive Follows (limit : Nat) : Option String → List (Table o.id) → List α → Prop
  | last {cursor rows items} (h : o.page F rows cursor limit = .ok ⟨items, none⟩) :
    Follows limit cursor [rows] items
  | more {cursor rows items next tables rest}
      (h : o.page F rows cursor limit = .ok ⟨items, some next⟩)
      (hrest : Follows limit (some next) tables rest) :
    Follows limit cursor (rows :: tables) (items ++ rest)

variable {F o} {rows : Table o.id} {limit : Nat} {last : Option α}

omit [LinearOrder κ] [LinearOrder τ] in
theorem columns_nodup : (rows.rows.map o.columns).Nodup := by
  refine Nodup.of_map (fun columns => (ofLex (ofLex columns).2).2) ?_
  simpa [columns, Function.comp_def] using rows.nodup

instance : IsStrictTotalOrder (κ ×ₗ (WithBot τ ×ₗ Id)) o.lt := by
  unfold lt
  cases o.descending
  · exact inferInstanceAs (IsStrictTotalOrder _ (· < ·))
  · exact inferInstanceAs (IsStrictTotalOrder _ (Function.swap (· < ·)))

/-- The condition a checkpoint is read back as. -/
theorem condition_checkpoint (c : α) :
    o.condition F (o.checkpoint F c) = some fun row =>
      decide (o.lt (o.columns c) (o.columns row)) := by
  obtain ⟨id, order, tieOrder, descending⟩ := o
  cases tieOrder with
  | none =>
    simp only [condition, checkpoint]
    rw [F.pad_unpad_encode, F.decode_encode _ (by simp)]
    cases descending <;>
      simp [lookup_cons, F.UUID_str, order.read_write, columns, lt,
        Prod.Lex.toLex_lt_toLex, eq_comm]
  | some tie =>
    simp only [condition, checkpoint]
    rw [F.pad_unpad_encode, F.decode_encode _ (by simp)]
    cases descending <;>
      simp [lookup_cons, F.UUID_str, order.read_write, tie.read_write, columns, lt,
        Prod.Lex.toLex_lt_toLex]

/-- The rows behind the last row read, all of them before the first page. -/
abbrev ahead (o : Ordering α κ τ) (last : Option α) (rows : Table o.id) : List α :=
  behind o.lt o.columns (last.map o.columns) rows.rows

theorem query_checkpoint : o.query F rows (last.map (o.checkpoint F)) =
    .ok (rows.rows.filter fun r => (last.map o.columns).all fun p => o.lt p (o.columns r)) := by
  cases last with
  | none => simp [query, pure, Except.pure]
  | some c =>
    have hcursor : (some (o.checkpoint F c)).filter (· ≠ "") = some (o.checkpoint F c) :=
      Option.filter_some_pos (decide_eq_true (F.unpad_encode_ne_empty _))
    rw [query, Option.map_some, hcursor]
    simp only [condition_checkpoint]
    rfl

/-- A page behind a row is the last one, or ends with the row that what remains lies behind. -/
theorem page_cases (hlimit : 1 ≤ limit ∧ limit ≤ 100) (rows : Table o.id) (last : Option α) :
    (o.ahead last rows).length ≤ limit
        ∧ o.page F rows (last.map (o.checkpoint F)) limit = .ok ⟨o.ahead last rows, none⟩ ∨
      ∃ c, ((o.ahead last rows).take limit).getLast? = some c ∧
        o.page F rows (last.map (o.checkpoint F)) limit =
          .ok ⟨(o.ahead last rows).take limit, some (o.checkpoint F c)⟩ := by
  have hpage : o.page F rows (last.map (o.checkpoint F)) limit =
      let ahead := (o.ahead last rows).take (limit + 1)
      if ahead.length > limit then
        pure ⟨ahead.take limit, (ahead.take limit).getLast?.map (o.checkpoint F)⟩
      else pure ⟨ahead, none⟩ := by
    rw [page, if_pos hlimit, query_checkpoint]
    rfl
  rw [hpage]
  by_cases hlength : (o.ahead last rows).length ≤ limit
  · refine .inl ⟨hlength, ?_⟩
    rw [take_of_length_le (by omega)]
    exact if_neg (by omega)
  · right
    have hne : (o.ahead last rows).take limit ≠ [] := by
      rw [Ne, take_eq_nil_iff, ← length_eq_zero_iff]
      omega
    refine ⟨_, getLast?_eq_getLast_of_ne_nil hne, (if_pos (by rw [length_take]; omega)).trans ?_⟩
    rw [take_take, min_eq_left (by omega), getLast?_eq_getLast_of_ne_nil hne]
    rfl

/-- A table that does not change is read in order. -/
theorem follows_static (hlimit : 1 ≤ limit ∧ limit ≤ 100) (rows : Table o.id) (last : Option α) :
    ∃ n, o.Follows F limit (last.map (o.checkpoint F)) (replicate n rows) (o.ahead last rows) := by
  induction hn : (o.ahead last rows).length using Nat.strong_induction_on generalizing last with
  | _ n ih =>
    obtain ⟨-, hpage⟩ | ⟨c, hc, hpage⟩ := page_cases hlimit rows last
    · exact ⟨1, .last hpage⟩
    · have hdrop := drop_behind columns_nodup hc
      have hpos := length_pos_of_mem (mem_of_mem_take (mem_of_getLast? hc))
      have hlt : (o.ahead (some c) rows).length < (o.ahead last rows).length := by
        rw [ahead, Option.map_some, ← hdrop, length_drop]
        exact Nat.sub_lt hpos hlimit.1
      obtain ⟨m, hrest⟩ := ih _ (hn ▸ hlt) (some c) rfl
      refine ⟨m + 1, ?_⟩
      rw [← take_append_drop limit (o.ahead last rows), hdrop]
      exact .more hpage hrest

/-- The table may be another one after the first page. -/
theorem follows_changed (hlimit : 1 ≤ limit ∧ limit ≤ 100) {rows : Table o.id}
    (hlength : limit < rows.rows.length) (rows' : Table o.id) :
    ∃ n items, o.Follows F limit none (rows :: replicate (n + 1) rows') items := by
  obtain ⟨hle, -⟩ | ⟨c, -, hpage⟩ := page_cases (F := F) hlimit rows none
  · have hahead : (o.ahead none rows).length = rows.rows.length := behind_none_perm.length_eq
    omega
  · obtain ⟨n, hrest⟩ := follows_static (F := F) hlimit rows' (some c)
    cases n with
    | zero => cases hrest
    | succ n => exact ⟨n, _, .more hpage hrest⟩

/-- Identifiers do not repeat on a page, and a row that keeps its place is one row of the table. -/
theorem count_eq {l : List α} (hl : l <+ o.ahead last rows) {row : α}
    (hrow : ∃ r ∈ rows, o.columns r = o.columns row) {P : Prop} [Decidable P]
    (hP : ∀ r ∈ rows, o.columns r = o.columns row → (r ∈ l ↔ P)) :
    (l.map o.id).count (o.id row) = if P then 1 else 0 := by
  obtain ⟨r, hr, hcolumns⟩ := hrow
  have hid : o.id r = o.id row := congrArg (fun columns => (ofLex (ofLex columns).2).2) hcolumns
  have hnodup : ((o.ahead last rows).map o.id).Nodup :=
    ((perm_insertionSort _ _).map o.id).nodup_iff.mpr (rows.nodup.sublist (filter_sublist.map o.id))
  have hmem : o.id row ∈ l.map o.id ↔ P := by
    rw [← hid, ← hP r hr hcolumns, mem_map]
    constructor
    · rintro ⟨x, hx, hid⟩
      exact Table.eq_of_key (mem_behind.mp (hl.subset hx)).1 hr hid ▸ hx
    · exact fun h => ⟨r, h, rfl⟩
  rw [(hnodup.sublist (hl.map o.id)).count]
  simp only [hmem]

/-- A row that keeps its place is read once from any position before it. -/
theorem count_of_follows (hlimit : 1 ≤ limit ∧ limit ≤ 100) {cursor : Option String}
    {tables : List (Table o.id)} {items : List α}
    (h : o.Follows F limit cursor tables items) {row : α}
    (hrow : ∀ rows ∈ tables, ∃ r ∈ rows, o.columns r = o.columns row) (last : Option α)
    (hcursor : cursor = last.map (o.checkpoint F)) :
    (items.map o.id).count (o.id row) =
      if ∀ p ∈ last.map o.columns, o.lt p (o.columns row) then 1 else 0 := by
  induction h generalizing last with
  | @last cursor rows items h =>
    subst hcursor
    obtain ⟨-, hpage⟩ | ⟨c, hc, hpage⟩ := page_cases hlimit rows last
    · obtain rfl : o.ahead last rows = items := by simpa using hpage.symm.trans h
      refine count_eq (.refl _) (hrow rows (by simp)) fun r hr hcolumns => ?_
      rw [mem_behind, hcolumns]
      exact and_iff_right hr
    · simpa using hpage.symm.trans h
  | @more cursor rows items next tables _ h _ ih =>
    subst hcursor
    obtain ⟨-, hpage⟩ | ⟨c, hc, hpage⟩ := page_cases hlimit rows last
    · simpa using hpage.symm.trans h
    · obtain ⟨rfl, rfl⟩ : (o.ahead last rows).take limit = items ∧ o.checkpoint F c = next := by
        simpa using hpage.symm.trans h
      have hrest := ih (fun rows hrows => hrow rows (mem_cons_of_mem _ hrows)) (some c) rfl
      have hitems : (((o.ahead last rows).take limit).map o.id).count (o.id row) =
          if (∀ p ∈ last.map o.columns, o.lt p (o.columns row))
          ∧ ¬ o.lt (o.columns c) (o.columns row)
          then 1 else 0 := by
        refine count_eq (take_sublist _ _) (hrow rows (by simp)) fun r hr hcolumns => ?_
        rw [mem_take (behind_pairwise columns_nodup) hc, mem_behind, hcolumns,
          and_iff_right (Table.mem_def.mp hr)]
      have hahead : o.lt (o.columns c) (o.columns row) → ∀ p ∈ last.map o.columns,
          o.lt p (o.columns row) :=
        fun hlt p hp =>
          trans_of o.lt ((mem_behind.mp (mem_of_mem_take (mem_of_getLast? hc))).2 p hp) hlt
      rw [map_append, count_append, hrest, hitems]
      by_cases hc : o.lt (o.columns c) (o.columns row) <;> simp_all

/-- The pages of a table that does not change list its rows, each once and in order; and whatever
becomes of other rows between two pages, a row that stays and keeps the columns of the order is
listed once. -/
theorem follows_exactly_once (F : Formats) (o : Ordering α κ τ) {limit : Nat}
    (hlimit : 1 ≤ limit ∧ limit ≤ 100) :
    (∀ rows : Table o.id, ∃ n items, o.Follows F limit none (replicate n rows) items ∧
      items.Perm rows.rows ∧ items.Pairwise fun a b => o.lt (o.columns a) (o.columns b)) ∧
    ∀ tables items, o.Follows F limit none tables items →
      ∀ row, (∀ rows ∈ tables, ∃ r ∈ rows, o.columns r = o.columns row) →
        (items.map o.id).count (o.id row) = 1 := by
  constructor
  · intro rows
    obtain ⟨n, h⟩ := follows_static (F := F) hlimit rows none
    exact ⟨n, _, h, behind_none_perm, behind_pairwise columns_nodup⟩
  · intro tables items h row hrow
    simpa using count_of_follows hlimit h hrow none rfl

end Ordering

/-! ## The timeline of an assignment -/

/-- A row of `activity_readmodel.timeline`, as far as it is ordered. -/
structure TimelineRow where
  id : Id
  occurredAt : Instant
  recordedAt : Instant

/-- The newest first; what occurred at one time in the order of its record. -/
def timeline (F : Formats) : Ordering TimelineRow Instant Instant where
  id := (·.id)
  order := .datetime F (·.occurredAt)
  tieOrder := some (.datetime F (·.recordedAt))
  descending := true

instance encodableChar : Encodable Char := .ofLeftInverse Char.toNat Char.ofNat Char.ofNat_toNat

instance encodableString : Encodable String := .ofLeftInverse String.toList String.ofList fun _ =>
  String.ofList_toList

instance : Encodable Scalar :=
  .ofLeftInverse (α := Option (String ⊕ Int))
    (fun | .text s => some (.inl s) | .number n => some (.inr n) | .other => none)
    (fun | some (.inl s) => .text s | some (.inr n) => .number n | none => .other)
    (by rintro ⟨⟩ <;> rfl)

/-- Texts that count in unary; those of checkpoints are padded. -/
def unaryFormats : Formats where
  str n := String.ofList (replicate n '1')
  UUID s := some s.length
  UUID_str := by simp
  isoformat t := String.ofList (replicate t '1')
  fromisoformat s := some (s.length, true)
  fromisoformat_isoformat := by simp
  encode fields :=
    let length := Encodable.encode fields + 1
    String.ofList (replicate length '1' ++ replicate ((4 - length % 4) % 4) '=')
  decode s := Encodable.decode ((s.toList.filter (· == '1')).length - 1)
  decode_encode := by simp
  encode_padded fields := ⟨_, _, rfl, by simp, by simp, Nat.mod_lt _ (by decide), by
    rw [length_replicate]
    omega⟩

/-- Three rows, two of which occurred at one time. -/
def sampleRows : Table (timeline unaryFormats).id := ⟨[⟨1, 5, 6⟩, ⟨2, 7, 8⟩, ⟨3, 5, 9⟩], by decide⟩

/-- Later the newest row is gone, another row has been recorded anew, and a row has been added. -/
def laterRows : Table (timeline unaryFormats).id := ⟨[⟨4, 9, 9⟩, ⟨3, 4, 10⟩, ⟨1, 5, 6⟩], by decide⟩

theorem sampleRows_follows : (1 ≤ 1 ∧ 1 ≤ 100)
    ∧ (∃ n items, (timeline unaryFormats).Follows unaryFormats 1 none (replicate n sampleRows) items
      ∧ items.Perm sampleRows.rows
      ∧ items.Pairwise fun a b => (timeline unaryFormats).lt ((timeline unaryFormats).columns a)
        ((timeline unaryFormats).columns b))
    ∧ ∃ n items, (timeline unaryFormats).Follows unaryFormats 1 none
        (sampleRows :: replicate (n + 1) laterRows) items
      ∧ (items.map (·.id)).count 1 = 1 := by
  have hlimit : 1 ≤ 1 ∧ 1 ≤ 100 := by decide
  obtain ⟨hstatic, hchanged⟩ :=
    Ordering.follows_exactly_once unaryFormats (timeline unaryFormats) hlimit
  obtain ⟨n, items, h⟩ := Ordering.follows_changed (F := unaryFormats) hlimit
    (show 1 < sampleRows.rows.length by decide) laterRows
  refine ⟨hlimit, hstatic sampleRows, n, items, h,
    hchanged _ items h ⟨1, 5, 6⟩ fun rows hrows => ?_⟩
  refine ⟨⟨1, 5, 6⟩, ?_, rfl⟩
  obtain rfl | hrows := mem_cons.mp hrows
  · simp [Table.mem_def, sampleRows]
  · simp [eq_of_mem_replicate hrows, Table.mem_def, laterRows]

end Horizon.Pages
