import Rdap.Python.Lines
import Rdap.Python.Raise

/-!
# The pages of a mailbox

A helper process prints one page of a mailbox at a time, the objects and the cursor of the next page.
Nothing that it prints is trusted: the lines are counted, the cursors may not come back, and without the
last page nothing is returned.
-/

set_option autoImplicit false

namespace Rdap.Mesh
open Python

def maxMailboxPages : Nat := 64
def maxMailboxObjects : Nat := 64
def maxMailboxTotalBytes : Nat := 64 * 1024 * 1024
def maxMailboxObjectBytes : Nat := 1048576 + 59 + 64

def runtimeError {α : Type} (message : PyStr) : Except PyExc α := .error ⟨.runtimeError, message⟩

/-- The objects so far, and the cursor of the page that is read. -/
structure Mailbox where
  objects : List Bytes := []
  totalBytes : Nat := 0
  nextCursor : Option PyStr := none

/-- `line.split('=', 1)[1].strip()` -/
def lineValue (line : PyStr) : PyStr := strip (partition 61 line).2.2

def isObjectLine (line : PyStr) : Bool := startsWith line (lit "object_hex=")

def isCursorLine (line : PyStr) : Bool := startsWith line (lit "next_cursor=")

/-- `bytes.fromhex`, whose `ValueError` gets another message. -/
def fromhexOr (message text : PyStr) : Except PyExc Bytes :=
  match fromhex text with
  | .ok b => .ok b
  | .error _ => runtimeError message

def takeObject (mailbox : Mailbox) (encoded : PyStr) : Except PyExc Mailbox :=
  if encoded.length % 2 ≠ 0 ∨ encoded.length > maxMailboxObjectBytes * 2 then
    runtimeError (lit "mailbox object exceeds the wire byte limit")
  else do
    let decoded ← fromhexOr (lit "mailbox returned a non-hex object") encoded
    if mailbox.objects.length ≥ maxMailboxObjects then
      runtimeError (lit "mailbox object count exceeds the store limit")
    else if (decoded.length : Int) > maxMailboxTotalBytes - mailbox.totalBytes then
      runtimeError (lit "mailbox objects exceed the store byte limit")
    else
      return { mailbox with
        objects := mailbox.objects ++ [decoded]
        totalBytes := mailbox.totalBytes + decoded.length }

def takeLine (mailbox : Mailbox) (line : PyStr) : Except PyExc Mailbox :=
  if isObjectLine line then takeObject mailbox (lineValue line)
  else if isCursorLine line then .ok { mailbox with nextCursor := some (lineValue line) }
  else .ok mailbox

def readPage (mailbox : Mailbox) (out : PyStr) : Except PyExc Mailbox :=
  (splitLines out).foldlM takeLine { mailbox with nextCursor := none }

def getArgs (peer peerId tagHex after : PyStr) : List PyStr :=
  [lit "get", lit "--peer", peer, lit "--peer-id", peerId, lit "--store-tag-hex", tagHex] ++
    if after ≠ [] then [lit "--after-hex", after] else []

section
variable (repr : PyStr → PyStr)

/-- One turn of the loop on what the helper printed: the objects if it was the last page, or the cursor to go
on with. -/
def turn (mailbox : Mailbox) (seen : List PyStr) (out : PyStr) : Except PyExc (Mailbox × Option PyStr) := do
  let mailbox ← readPage mailbox out
  match mailbox.nextCursor with
  | none => runtimeError (lit "mailbox page omitted its continuation cursor")
  | some cursor =>
    if cursor = lit "end" then return (mailbox, none)
    else if cursor.length ≠ 64 then runtimeError (lit "invalid mailbox cursor: " ++ repr cursor)
    else do
      let _ ← fromhexOr (lit "mailbox returned a non-hex cursor") cursor
      if cursor ∈ seen then runtimeError (lit "mailbox cursor cycle detected")
      else return (mailbox, some cursor)

/-- The loop over the page numbers, with the cursors that it asks for. -/
def getLoop (outputs : Nat → Except PyExc PyStr) :
    List Nat → Mailbox → PyStr → List PyStr → List PyStr × Except PyExc (List Bytes)
  | [], _, _, _ => ([], runtimeError (lit "mailbox pagination exceeded the compiled page limit"))
  | page :: pages, mailbox, after, seen =>
    match outputs page >>= turn repr mailbox seen with
    | .error e => ([after], .error e)
    | .ok (mailbox, none) => ([after], .ok mailbox.objects)
    | .ok (mailbox, some cursor) =>
      let run := getLoop outputs pages mailbox cursor (seen ++ [cursor])
      (after :: run.1, run.2)

/-- The helper's `n`-th output is `outputs n`; the requests come with the result. -/
def mailboxGetAll (mkdir : Except PyExc Unit) (outputs : Nat → Except PyExc PyStr) (peer peerId tagHex : PyStr) :
    List (List PyStr) × Except PyExc (List Bytes) :=
  match mkdir with
  | .error e => ([], .error e)
  | .ok () =>
    let run := getLoop repr outputs (List.range maxMailboxPages) {} [] []
    (run.1.map (getArgs peer peerId tagHex), run.2)

end

/-! ## What a page says -/

/-- The objects on a page. -/
def pageObjects (out : PyStr) : Except PyExc (List Bytes) :=
  ((splitLines out).filter isObjectLine).mapM fun line => fromhex (lineValue line)

/-- The cursor of a page is the one it names last. -/
def pageCursor (out : PyStr) : Option PyStr :=
  ((splitLines out).filter isCursorLine).getLast?.map lineValue

/-- The limits hold and the bytes are counted right. -/
structure Mailbox.Within (mailbox : Mailbox) : Prop where
  count : mailbox.objects.length ≤ maxMailboxObjects
  counted : mailbox.totalBytes = (mailbox.objects.map List.length).sum
  bytes : mailbox.totalBytes ≤ maxMailboxTotalBytes

theorem fromhexOr_ok {message text : PyStr} {b : Bytes} : fromhexOr message text = .ok b ↔ fromhex text = .ok b := by
  unfold fromhexOr
  cases fromhex text with
  | ok b => exact Iff.rfl
  | error e => simp [runtimeError]

theorem takeObject_ok {mailbox next : Mailbox} {encoded : PyStr} (h : takeObject mailbox encoded = .ok next) :
    ∃ decoded, fromhex encoded = .ok decoded ∧ next.objects = mailbox.objects ++ [decoded] ∧
      next.nextCursor = mailbox.nextCursor ∧ (mailbox.Within → next.Within) := by
  unfold takeObject at h
  split at h
  · cases h
  · obtain ⟨decoded, hdecoded, hrest⟩ := bind_ok.mp h
    split at hrest
    · cases hrest
    · rename_i hcount
      split at hrest
      · cases hrest
      · rename_i hbytes
        obtain rfl := pure_ok.mp hrest
        refine ⟨decoded, fromhexOr_ok.mp hdecoded, rfl, rfl, fun hwithin => ⟨?_, ?_, ?_⟩⟩
        · rw [List.length_append, List.length_singleton]
          omega
        · have hcounted := hwithin.counted
          simp only [List.map_append, List.map_cons, List.map_nil, List.sum_append, List.sum_cons, List.sum_nil]
          omega
        · dsimp only
          omega

theorem not_cursorLine {line : PyStr} (h : isObjectLine line = true) : isCursorLine line = false := by
  have hobject : lit "object_hex=" = 111 :: lit "bject_hex=" := rfl
  have hcursor : lit "next_cursor=" = 110 :: lit "ext_cursor=" := rfl
  unfold isObjectLine startsWith at h
  unfold isCursorLine startsWith
  cases line with
  | nil => cases h
  | cons c line =>
    rw [hobject, List.isPrefixOf_cons_cons, Bool.and_eq_true, beq_iff_eq] at h
    rw [hcursor, List.isPrefixOf_cons_cons, ← h.1]
    rfl

/-- The lines of a page are taken one by one. -/
theorem foldlM_takeLine {lines : List PyStr} {mailbox next : Mailbox} (h : lines.foldlM takeLine mailbox = .ok next) :
    (∃ part, (lines.filter isObjectLine).mapM (fun line => fromhex (lineValue line)) = .ok part ∧
      next.objects = mailbox.objects ++ part) ∧
      next.nextCursor = ((lines.filter isCursorLine).getLast?.map lineValue).or mailbox.nextCursor ∧
      (mailbox.Within → next.Within) := by
  induction lines generalizing mailbox with
  | nil =>
    obtain rfl : mailbox = next := pure_ok.mp h
    exact ⟨⟨[], rfl, (List.append_nil _).symm⟩, rfl, id⟩
  | cons line lines ih =>
    rw [List.foldlM_cons] at h
    obtain ⟨mid, hline, hrest⟩ := bind_ok.mp h
    obtain ⟨⟨part, hpart, hobjects⟩, hcursor, hwithin⟩ := ih hrest
    unfold takeLine at hline
    split at hline
    · rename_i hobject
      obtain ⟨decoded, hdecoded, hmid, hsame, hstep⟩ := takeObject_ok hline
      refine ⟨⟨decoded :: part, ?_, ?_⟩, ?_, fun hw => hwithin (hstep hw)⟩
      · rw [List.filter_cons_of_pos hobject, List.mapM_cons, hdecoded, hpart]
        rfl
      · rw [hobjects, hmid, List.append_assoc]
        rfl
      · rw [hcursor, hsame, List.filter_cons_of_neg (by rw [not_cursorLine hobject]; exact Bool.false_ne_true)]
    · rename_i hobject
      rw [List.filter_cons_of_neg hobject]
      split at hline
      · rename_i hisCursor
        obtain rfl := Except.ok.inj hline
        refine ⟨⟨part, hpart, hobjects⟩, ?_, fun hw => hwithin ⟨hw.count, hw.counted, hw.bytes⟩⟩
        rw [hcursor, List.filter_cons_of_pos hisCursor, List.getLast?_cons]
        cases (lines.filter isCursorLine).getLast? <;> rfl
      · rename_i hisCursor
        obtain rfl := Except.ok.inj hline
        rw [List.filter_cons_of_neg hisCursor]
        exact ⟨⟨part, hpart, hobjects⟩, hcursor, hwithin⟩

theorem readPage_ok {mailbox next : Mailbox} {out : PyStr} (h : readPage mailbox out = .ok next) :
    (∃ part, pageObjects out = .ok part ∧ next.objects = mailbox.objects ++ part) ∧
      next.nextCursor = pageCursor out ∧ (mailbox.Within → next.Within) := by
  obtain ⟨hobjects, hcursor, hwithin⟩ := foldlM_takeLine h
  refine ⟨hobjects, ?_, fun hw => hwithin ⟨hw.count, hw.counted, hw.bytes⟩⟩
  rw [hcursor, Option.or_none]
  rfl

variable {repr : PyStr → PyStr}

theorem turn_ok {mailbox next : Mailbox} {seen : List PyStr} {out : PyStr} {cursor : Option PyStr}
    (h : turn repr mailbox seen out = .ok (next, cursor)) :
    (∃ part, pageObjects out = .ok part ∧ next.objects = mailbox.objects ++ part) ∧
      pageCursor out = some (cursor.getD (lit "end")) ∧ (mailbox.Within → next.Within) ∧
      ∀ c, cursor = some c → c.length = 64 ∧ c ∉ seen := by
  unfold turn at h
  obtain ⟨mid, hpage, hrest⟩ := bind_ok.mp h
  obtain ⟨hobjects, hcursor, hwithin⟩ := readPage_ok hpage
  split at hrest
  · cases hrest
  · rename_i name hname
    rw [hname] at hcursor
    split at hrest
    · rename_i hend
      obtain ⟨rfl, rfl⟩ := Prod.mk.inj (pure_ok.mp hrest)
      subst hend
      exact ⟨hobjects, hcursor.symm, hwithin, fun c hc => by cases hc⟩
    · split at hrest
      · cases hrest
      · rename_i hlength
        obtain ⟨_, _, hrest⟩ := bind_ok.mp hrest
        split at hrest
        · cases hrest
        · rename_i hnew
          obtain ⟨rfl, rfl⟩ := Prod.mk.inj (pure_ok.mp hrest)
          refine ⟨hobjects, hcursor.symm, hwithin, ?_⟩
          rintro c hc
          obtain rfl := Option.some.inj hc
          exact ⟨not_not.mp hlength, hnew⟩

/-! ## Runs -/

/-- The pages up to the first whose cursor is `end` have these objects, and each page before names the cursor
that is asked for next. -/
def Complete (outputs : Nat → Except PyExc PyStr) (pages : List Nat) (cursors : List PyStr)
    (parts : List (List Bytes)) : Prop :=
  ∃ outs : List PyStr, outs.length = cursors.length + 1 ∧
    List.Forall₂ (fun page out => outputs page = .ok out) (pages.take outs.length) outs ∧
    outs.map pageCursor = cursors.map some ++ [some (lit "end")] ∧ outs.mapM pageObjects = .ok parts

theorem getLoop_run {outputs : Nat → Except PyExc PyStr} {pages : List Nat} {mailbox : Mailbox} {after : PyStr}
    {seen : List PyStr} (hpages : pages ≠ []) (hwithin : mailbox.Within) :
    ∃ cursors, (getLoop repr outputs pages mailbox after seen).1 = after :: cursors ∧
      cursors.length < pages.length ∧ cursors.Nodup ∧ (∀ c ∈ cursors, c.length = 64 ∧ c ∉ seen) ∧
      ∀ objects, (getLoop repr outputs pages mailbox after seen).2 = .ok objects →
        ∃ parts, Complete outputs pages cursors parts ∧ objects = mailbox.objects ++ parts.flatten ∧
          objects.length ≤ maxMailboxObjects ∧ (objects.map List.length).sum ≤ maxMailboxTotalBytes := by
  induction pages generalizing mailbox after seen with
  | nil => exact absurd rfl hpages
  | cons page pages ih =>
    rw [getLoop]
    cases hstep : outputs page >>= turn repr mailbox seen with
    | error e => exact ⟨[], rfl, by simp, List.nodup_nil, by simp, fun objects h => by cases h⟩
    | ok answer =>
      obtain ⟨next, cursor⟩ := answer
      obtain ⟨out, hout, hturn⟩ := bind_ok.mp hstep
      obtain ⟨⟨part, hpart, hobjects⟩, hcursor, hstepWithin, hnew⟩ := turn_ok hturn
      have hnext := hstepWithin hwithin
      cases cursor with
      | none =>
        refine ⟨[], rfl, by simp, List.nodup_nil, by simp, ?_⟩
        rintro objects hresult
        obtain rfl := Except.ok.inj hresult
        refine ⟨[part], ⟨[out], rfl, ?_, ?_, ?_⟩, ?_, hnext.count, hnext.counted ▸ hnext.bytes⟩
        · exact List.Forall₂.cons hout List.Forall₂.nil
        · simpa using hcursor
        · rw [List.mapM_cons, hpart]
          rfl
        · simpa using hobjects
      | some c =>
        obtain ⟨hlength, hfresh⟩ := hnew c rfl
        by_cases hlast : pages = []
        · subst hlast
          exact ⟨[], rfl, by simp, List.nodup_nil, by simp, fun objects h => by cases h⟩
        · obtain ⟨cursors, hrequests, hcount, hnodup, hcursors, hresult⟩ :=
            @ih next c (seen ++ [c]) hlast hnext
          have hc : c ∉ cursors := fun hin => (hcursors c hin).2 (by simp)
          refine ⟨c :: cursors, congrArg (after :: ·) hrequests, by simpa using hcount,
            List.nodup_cons.mpr ⟨hc, hnodup⟩, ?_, ?_⟩
          · intro d hd
            rcases List.mem_cons.mp hd with rfl | hd
            · exact ⟨hlength, hfresh⟩
            · exact ⟨(hcursors d hd).1, fun hin => (hcursors d hd).2 (List.mem_append_left _ hin)⟩
          · intro objects hok
            obtain ⟨parts, ⟨outs, houts, hread, hnames, hparts⟩, hall, hlimits⟩ := hresult objects hok
            refine ⟨part :: parts, ⟨out :: outs, ?_, ?_, ?_, ?_⟩, ?_, hlimits⟩
            · rw [List.length_cons, List.length_cons, houts]
            · rw [List.length_cons, List.take_succ_cons]
              exact List.Forall₂.cons hout hread
            · rw [List.map_cons, hnames, hcursor]
              rfl
            · rw [List.mapM_cons, hpart, hparts]
              rfl
            · rw [hall, hobjects, List.append_assoc]
              rfl

theorem getArgs_injective {peer peerId tagHex a b : PyStr}
    (h : getArgs peer peerId tagHex a = getArgs peer peerId tagHex b) : a = b := by
  have htail := List.append_cancel_left h
  by_cases ha : a = []
  · by_cases hb : b = []
    · rw [ha, hb]
    · rw [if_neg (not_not.mpr ha), if_pos hb] at htail
      cases htail
  · by_cases hb : b = []
    · rw [if_pos ha, if_neg (not_not.mpr hb)] at htail
      cases htail
    · rw [if_pos ha, if_pos hb] at htail
      simpa using htail

/-- Whatever the helper prints: no cursor is asked for twice, and what is returned is all that the pages up to
the last one hold. -/
theorem mailbox_get_all_complete (repr : PyStr → PyStr) (mkdir : Except PyExc Unit)
    (outputs : Nat → Except PyExc PyStr) (peer peerId tagHex : PyStr) :
    (mailboxGetAll repr mkdir outputs peer peerId tagHex).1.length ≤ maxMailboxPages ∧
      (mailboxGetAll repr mkdir outputs peer peerId tagHex).1.Nodup ∧
      ∀ objects, (mailboxGetAll repr mkdir outputs peer peerId tagHex).2 = .ok objects →
        ∃ cursors parts, (mailboxGetAll repr mkdir outputs peer peerId tagHex).1 =
            ([] :: cursors).map (getArgs peer peerId tagHex) ∧
          lit "end" ∉ cursors ∧ Complete outputs (List.range maxMailboxPages) cursors parts ∧
          objects = parts.flatten ∧ objects.length ≤ maxMailboxObjects ∧
          (objects.map List.length).sum ≤ maxMailboxTotalBytes := by
  cases mkdir with
  | error e => exact ⟨by simp [mailboxGetAll], by simp [mailboxGetAll], fun objects h => by cases h⟩
  | ok u =>
    obtain ⟨cursors, hrequests, hcount, hnodup, hcursors, hresult⟩ :=
      @getLoop_run repr outputs (List.range maxMailboxPages) {} [] [] (by decide)
        ⟨Nat.zero_le _, rfl, Nat.zero_le _⟩
    have hargs : (mailboxGetAll repr (.ok u) outputs peer peerId tagHex).1 =
        ([] :: cursors).map (getArgs peer peerId tagHex) := by
      rw [← hrequests]
      rfl
    have hempty : [] ∉ cursors := fun hin => absurd (hcursors [] hin).1 (by decide)
    refine ⟨?_, ?_, ?_⟩
    · rw [hargs, List.length_map, List.length_cons]
      simpa using hcount
    · rw [hargs]
      exact (List.nodup_cons.mpr ⟨hempty, hnodup⟩).map fun a b => getArgs_injective
    · intro objects hok
      obtain ⟨parts, hcomplete, hobjects, hlimits⟩ := hresult objects hok
      exact ⟨cursors, parts, hargs, fun hin => absurd (hcursors _ hin).1 (by decide), hcomplete, hobjects, hlimits⟩

example :
    let cursor := lit "0123456789abcdef0123456789abcdef0123456789abcdef0123456789abcdef"
    let pages := [lit "object_hex=00ff\nnext_cursor=" ++ cursor, lit "next_cursor=end\nobject_hex= 07\n"]
    (mailboxGetAll id (.ok ()) (fun n => .ok (pages.getD n [])) [] [] []).2 = .ok [[0, 255], [7]] := by
  decide +kernel

end Rdap.Mesh
