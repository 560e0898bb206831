import ViewMarkup.Report.Location

/-!
# A tracker answers as if it looked from the start

A tracker keeps how far it has come, and starts again only if a range before that is asked for.
Whatever it has been asked before, its answers are those that can be read off the bytes alone.

* `place` and `rangeOf` are the place of a byte and the range of a tag, read off the bytes.
* `Query` is a call of a tracker, and `replies` are the answers to a row of calls.
* `History` is what the answers depend on beside the bytes, and `Follows` ties a tracker to it.
* `replies_eq_answers` compares the answers.
-/

namespace ViewMarkup.Tracker

variable {start : Nat} {index : Nat}

/-! ### Places and ranges -/

/-- Whether a byte is the first one of a character. -/
def isLeading (byte : UInt8) : Bool :=
  byte &&& 0xC0 != 0x80

/-- The line after some bytes. -/
def lineAfter (before : List UInt8) : Nat :=
  1 + before.count 0x0A

/-- The column after some bytes: the characters since the last line feed count. -/
def columnAfter (before : List UInt8) : Nat :=
  1 + (before.reverse.takeWhile (· != 0x0A)).countP isLeading

/-- The place of a byte; beyond the last one, that of the end. -/
def place (bytes : List UInt8) (index : Nat) : Position :=
  ⟨lineAfter (bytes.take index), columnAfter (bytes.take index)⟩

/-- The quote that is open after one more byte. -/
def quoteStep (quote : Option UInt8) (byte : UInt8) : Option UInt8 :=
  match quote with
  | some q => if byte = q then none else some q
  | none => if byte = 0x22 ∨ byte = 0x27 then some byte else none

/-- Whether the byte at an offset is a `>` outside the quotes that open from `start` on. -/
def endsTag (bytes : List UInt8) (start index : Nat) : Bool :=
  bytes[index]? == some 0x3E && (((bytes.take index).drop start).foldl quoteStep none).isNone

/-- The last byte of the tag at an offset.  Without an end, the tag goes on to the last byte. -/
def lastOfTag (bytes : List UInt8) (start : Nat) : Nat :=
  ((List.range' start (bytes.length - start)).find? (endsTag bytes start)).getD
    (max (bytes.length - 1) start)

/-- The range of the tag at an offset. -/
def rangeOf (bytes : List UInt8) (start : Nat) : SourceRange :=
  ⟨place bytes start, place bytes (lastOfTag bytes start)⟩

/-! ### Calls -/

/-- A call of a tracker. -/
inductive Query where
  | position (index : Nat)
  | setCursor (index : Nat)
  | range

/-- What a call returns. -/
inductive Reply where
  | position (found : Except LocationFault Position)
  | done
  | range (found : Except LocationFault (Option SourceRange))

/-- The answer to a call, and the tracker after it.  A call for a position that fails leaves the
tracker as it is. -/
def ask (t : Tracker) : Query → Reply × Tracker
  | .position index =>
    match t.position index with
    | .ok (found, t) => (.position (.ok found), t)
    | .error fault => (.position (.error fault), t)
  | .setCursor index => (.done, t.setCursor index)
  | .range => (.range t.range.1, t.range.2)

/-- The answers to calls one after the other. -/
def replies (t : Tracker) : List Query → List Reply
  | [] => []
  | query :: rest => (t.ask query).1 :: replies (t.ask query).2 rest

/-- What the answer to a call depends on, beside the bytes. -/
structure History where
  /-- The offset that has been reached. -/
  reached : Nat
  cursor : Option Nat

namespace History

/-- The answer to a call, read off the bytes. -/
def answer (bytes : List UInt8) (h : History) : Query → Reply × History
  | .position index =>
    if index < h.reached then (.position (.error .backwards), h)
    else (.position (.ok (place bytes index)), { h with reached := min index bytes.length })
  | .setCursor index => (.done, { h with cursor := some index })
  | .range =>
    match h.cursor with
    | none => (.range (.ok none), h)
    | some start =>
      (.range (.ok (some (rangeOf bytes start))),
        { h with reached := min (lastOfTag bytes start) bytes.length })

def answers (bytes : List UInt8) (h : History) : List Query → List Reply
  | [] => []
  | query :: rest => (h.answer bytes query).1 :: answers bytes (h.answer bytes query).2 rest

end History

/-! ### Walking forward -/

theorem pass_placeAfter (before : List UInt8) (byte : UInt8) :
    pass (lineAfter before, columnAfter before) byte =
      (lineAfter (before ++ [byte]), columnAfter (before ++ [byte])) := by
  unfold pass lineAfter columnAfter
  by_cases hfeed : byte = 0x0A
  · simp [hfeed, Nat.add_assoc]
  · by_cases hlead : byte &&& 0xC0 = 0x80
    · simp [hfeed, hlead, isLeading]
    · have hleading : isLeading byte = true := bne_iff_ne.mpr hlead
      simp [hfeed, hlead, List.countP_cons_of_pos hleading, Nat.add_assoc]

theorem foldl_pass (before more : List UInt8) :
    more.foldl pass (lineAfter before, columnAfter before) =
      (lineAfter (before ++ more), columnAfter (before ++ more)) := by
  induction more generalizing before with
  | nil => simp
  | cons byte more ih =>
    rw [List.foldl_cons, pass_placeAfter, ih, List.append_assoc, List.singleton_append]

theorem place_min (bytes : List UInt8) (index : Nat) :
    place bytes (min index bytes.length) = place bytes index := by
  unfold place
  rw [← List.take_eq_take_min]

/-- A tracker has come as far as a history says, and counted right on the way. -/
structure Follows (bytes : List UInt8) (t : Tracker) (h : History) : Prop where
  reads : t.bytes = bytes
  index : t.index = h.reached
  inside : h.reached ≤ bytes.length
  line : t.line = lineAfter (bytes.take h.reached)
  column : t.column = columnAfter (bytes.take h.reached)
  cursor : t.cursor = h.cursor.map Int.ofNat

section
variable {bytes : List UInt8} {t : Tracker} {h : History}

theorem Follows.here (ht : Follows bytes t h) : t.here = place bytes h.reached := by
  rw [Tracker.here, place, ht.line, ht.column]

theorem Follows.advance (ht : Follows bytes t h) (hindex : h.reached ≤ index) :
    Follows bytes (t.advance index) { h with reached := min index bytes.length } := by
  have hpassed : bytes.take h.reached ++ (bytes.drop h.reached).take (index - h.reached) =
      bytes.take index := by
    rw [← List.take_add, Nat.add_sub_cancel' hindex]
  have hfold := foldl_pass (bytes.take h.reached) ((bytes.drop h.reached).take (index - h.reached))
  rw [hpassed] at hfold
  have hlength : h.reached + ((bytes.drop h.reached).take (index - h.reached)).length =
      min index bytes.length := by
    have hinside := ht.inside
    rw [List.length_take, List.length_drop]
    omega
  unfold Tracker.advance
  rw [ht.reads, ht.index, ht.line, ht.column]
  dsimp only
  rw [hfold]
  refine ⟨rfl, hlength, Nat.min_le_right .., ?_, ?_, ht.cursor⟩
  · rw [← List.take_eq_take_min]
  · rw [← List.take_eq_take_min]

theorem Follows.rewind (ht : Follows bytes t h) : Follows bytes t.rewind { h with reached := 0 } :=
  ⟨ht.reads, rfl, Nat.zero_le _, rfl, rfl, ht.cursor⟩

/-- A place that does not lie before the one reached. -/
theorem Follows.position (ht : Follows bytes t h) (hindex : h.reached ≤ index) :
    ∃ t', t.position index = .ok (place bytes index, t') ∧
      Follows bytes t' { h with reached := min index bytes.length } := by
  have hadvance := ht.advance hindex
  refine ⟨t.advance index, ?_, hadvance⟩
  have hnot : ¬ (index : Int) < t.index := by
    rw [ht.index]
    omega
  rw [Tracker.position, if_neg hnot, ← place_min]
  exact congrArg (fun here => Except.ok (here, t.advance index)) hadvance.here

/-! ### The end of a tag -/

/-- The search for the end of a tag finds the first byte that ends it. -/
theorem distanceToEnd_eq (quote : Option UInt8) :
    distanceToEnd quote bytes = (List.range bytes.length).find? fun d =>
      bytes[d]? == some 0x3E && ((bytes.take d).foldl quoteStep quote).isNone := by
  induction bytes generalizing quote with
  | nil => rw [distanceToEnd]; rfl
  | cons byte rest ih =>
    have hlater : ((List.range rest.length).map Nat.succ).find? (fun d =>
        (byte :: rest)[d]? == some 0x3E &&
          (((byte :: rest).take d).foldl quoteStep quote).isNone) =
        (distanceToEnd (quoteStep quote byte) rest).map (· + 1) := by
      rw [ih, List.find?_map]
      rfl
    rw [List.length_cons, List.range_succ_eq_map, List.find?_cons, hlater]
    cases quote with
    | some q =>
      rw [distanceToEnd]
      simp [quoteStep]
    | none =>
      rw [distanceToEnd]
      by_cases hend : byte = 0x3E
      · simp [hend]
      · have hother : (byte == 0x3E) = false := beq_eq_false_iff_ne.mpr hend
        simp [hend, hother, quoteStep]

theorem Follows.tagEnd (ht : Follows bytes t h) :
    t.tagEnd start = .ok (lastOfTag bytes start : Nat) := by
  have hends (d : Nat) : endsTag bytes start (start + d) =
      ((bytes.drop start)[d]? == some 0x3E &&
        (((bytes.drop start).take d).foldl quoteStep none).isNone) := by
    rw [endsTag, List.getElem?_drop, List.drop_take, Nat.add_sub_cancel_left]
  have hlast : max ((bytes.length : Int) - 1) start = ((max (bytes.length - 1) start : Nat) : Int) := by
    omega
  show Except.ok (((distanceToEnd none (t.bytes.drop start)).map fun d => ((start : Int) + d)).getD
    (max ((t.bytes.length : Int) - 1) start)) = _
  rw [ht.reads, hlast, distanceToEnd_eq, lastOfTag, List.range'_eq_map_range, List.find?_map,
    List.length_drop, show endsTag bytes start ∘ (start + ·) = _ from funext hends]
  cases (List.range (bytes.length - start)).find? _ <;> rfl

theorem le_lastOfTag : start ≤ lastOfTag bytes start := by
  unfold lastOfTag
  cases hfound : (List.range' start (bytes.length - start)).find? (endsTag bytes start) with
  | none => exact Nat.le_max_right ..
  | some index => exact (List.mem_range'_1.mp (List.mem_of_find?_eq_some hfound)).1

/-- The range of the tag at the cursor does not depend on how far the tracker has come. -/
theorem Follows.range (ht : Follows bytes t h) (hstart : h.cursor = some start) :
    ∃ t', t.range = (.ok (some (rangeOf bytes start)), t') ∧
      Follows bytes t' { h with reached := min (lastOfTag bytes start) bytes.length } := by
  have hcursor : t.cursor = some (start : Int) := by
    rw [ht.cursor, hstart]
    rfl
  -- where the walk goes on from: the start if the cursor lies behind
  obtain ⟨reached, hreached, hfrom⟩ : ∃ reached ≤ start,
      Follows bytes (if (start : Int) < t.index then t.rewind else t) { h with reached } := by
    by_cases hback : (start : Int) < t.index
    · rw [if_pos hback]
      exact ⟨0, Nat.zero_le _, ht.rewind⟩
    · rw [if_neg hback]
      rw [ht.index] at hback
      exact ⟨h.reached, by omega, ht⟩
  obtain ⟨first, hfirst, hfollows⟩ := hfrom.position hreached
  obtain ⟨last, hlast, hfollows'⟩ := hfollows.position
    (Nat.le_trans (Nat.min_le_left start bytes.length) le_lastOfTag)
  refine ⟨last, ?_, hfollows'⟩
  rw [Tracker.range, hcursor]
  dsimp only
  rw [ht.tagEnd]
  rw [hfirst]
  dsimp only
  rw [hlast]
  rfl

/-! ### Any row of calls -/

/-- **The step.** -/
theorem Follows.ask (ht : Follows bytes t h) (query : Query) :
    (t.ask query).1 = (h.answer bytes query).1 ∧
      Follows bytes (t.ask query).2 (h.answer bytes query).2 := by
  cases query with
  | position index =>
    unfold Tracker.ask History.answer
    dsimp only
    by_cases hback : index < h.reached
    · have hfault : t.position index = .error .backwards := by
        rw [Tracker.position, ht.index, if_pos (by omega)]
      rw [if_pos hback, hfault]
      exact ⟨rfl, ht⟩
    · obtain ⟨t', hposition, hfollows⟩ := ht.position (Nat.le_of_not_lt hback)
      rw [if_neg hback, hposition]
      exact ⟨rfl, hfollows⟩
  | setCursor index => exact ⟨rfl, ht.reads, ht.index, ht.inside, ht.line, ht.column, rfl⟩
  | range =>
    unfold Tracker.ask History.answer
    cases hcursor : h.cursor with
    | none =>
      have hnone : t.range = (.ok none, t) := by
        rw [Tracker.range, ht.cursor, hcursor]
        rfl
      rw [hnone]
      exact ⟨rfl, ht⟩
    | some start =>
      obtain ⟨t', hrange, hfollows⟩ := ht.range hcursor
      rw [hcursor] at hfollows
      rw [hrange]
      exact ⟨rfl, hfollows⟩

/-- The run. -/
theorem Follows.replies (ht : Follows bytes t h) {queries : List Query} :
    t.replies queries = h.answers bytes queries := by
  induction queries generalizing t h with
  | nil => rfl
  | cons query rest ih =>
    obtain ⟨hanswer, hfollows⟩ := ht.ask query
    rw [Tracker.replies, History.answers, hanswer, ih hfollows]

end

/-- **A tracker answers as if it looked from the start.**  A position is refused just if it lies before
the one that has been reached; a range is never refused, and is the same whatever was asked before. -/
theorem replies_eq_answers (source : Text) (queries : List Query) :
    (ofText source).replies queries = History.answers source.utf8 ⟨0, none⟩ queries :=
  Follows.replies ⟨rfl, rfl, Nat.zero_le _, rfl, rfl, rfl⟩

end ViewMarkup.Tracker
