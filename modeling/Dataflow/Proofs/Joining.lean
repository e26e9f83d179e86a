import Mathlib.Order.Bounds.Basic
import Dataflow.Proofs.Result
import Dataflow.Text.Sources

/-!
# Dataflow.Proofs.Joining

Spans of one source join to their hull (`Span.IsHull`): it begins where the first of
them begins and ends where the last of them ends.  A set of spans has one hull, so
neither the order of joining nor how often a span comes up makes a difference.

The ends of a hull are ends of spans that it was joined from.  Where both ends of
these lie between two characters, those of the hull do, and the text of the hull
holds the text of each span in its place (`Sources.text?_of_isHull`).
-/

namespace Dataflow

/-! ## Hulls -/

namespace Span

/-- The smallest stretch that covers some spans of one source. -/
structure IsHull (hull : Span) (spans : Set Span) : Prop where
  source : ∀ span ∈ spans, span.source = hull.source
  start : IsLeast (Span.start '' spans) hull.start
  stop : IsGreatest (Span.stop '' spans) hull.stop

namespace IsHull

variable {hull hull' : Span} {spans : Set Span}

theorem start_le (h : hull.IsHull spans) {span : Span} (hmem : span ∈ spans) :
    hull.start ≤ span.start :=
  h.start.2 (Set.mem_image_of_mem _ hmem)

theorem stop_le (h : hull.IsHull spans) {span : Span} (hmem : span ∈ spans) :
    span.stop ≤ hull.stop :=
  h.stop.2 (Set.mem_image_of_mem _ hmem)

theorem unique (h : hull.IsHull spans) (h' : hull'.IsHull spans) : hull = hull' := by
  obtain ⟨span, hmem, _⟩ := h.start.1
  have hsource : hull.source = hull'.source := (h.source span hmem).symm.trans (h'.source span hmem)
  have hstart := h.start.unique h'.start
  have hstop := h.stop.unique h'.stop
  cases hull
  cases hull'
  simp_all

end IsHull

/-- Spans of one source join to the stretch from the least start to the greatest
end. -/
theorem joinAll_of_source {first : Span} {rest : List Span}
    (h : ∀ span ∈ rest, span.source = first.source) :
    first.joinAll rest = .ok ⟨first.source, (rest.map (·.start)).foldl min first.start,
      (rest.map (·.stop)).foldl max first.stop⟩ := by
  induction rest generalizing first with
  | nil => rfl
  | cons span rest ih =>
    obtain ⟨hspan, hrest⟩ := List.forall_mem_cons.mp h
    rw [joinAll, List.foldlM_cons, join_of_source_eq hspan.symm, ok_bind]
    exact ih hrest

/-- Spans of one source join to their hull. -/
theorem exists_joinAll {first : Span} {rest : List Span}
    (h : ∀ span ∈ rest, span.source = first.source) :
    ∃ hull, first.joinAll rest = .ok hull ∧ hull.IsHull {span | span ∈ first :: rest} := by
  refine ⟨_, joinAll_of_source h, ?_, ?_, ?_⟩
  · exact List.forall_mem_cons.mpr ⟨rfl, h⟩
  · have hmin : ((first :: rest).map (·.start)).min? =
        some ((rest.map (·.start)).foldl min first.start) := List.min?_cons'
    obtain ⟨hmem, hle⟩ := List.min?_eq_some_iff.mp hmin
    refine ⟨List.mem_map.mp hmem, ?_⟩
    rintro _ ⟨span, hspan, rfl⟩
    exact hle _ (List.mem_map_of_mem hspan)
  · have hmax : ((first :: rest).map (·.stop)).max? =
        some ((rest.map (·.stop)).foldl max first.stop) := List.max?_cons'
    obtain ⟨hmem, hle⟩ := List.max?_eq_some_iff.mp hmax
    refine ⟨List.mem_map.mp hmem, ?_⟩
    rintro _ ⟨span, hspan, rfl⟩
    exact hle _ (List.mem_map_of_mem hspan)

/-- Whatever the order of some spans of one source, and however often they come up,
they join to the same span. -/
theorem joinAll_eq_of_isHull {hull first : Span} {rest : List Span} {spans : Set Span}
    (h : hull.IsHull spans) (hmem : ∀ span, span ∈ first :: rest ↔ span ∈ spans) :
    first.joinAll rest = .ok hull := by
  have hsource : ∀ span ∈ first :: rest, span.source = hull.source :=
    fun span hspan => h.source span ((hmem span).mp hspan)
  obtain ⟨hfirst, hrest⟩ := List.forall_mem_cons.mp hsource
  have hsame : ∀ span ∈ rest, span.source = first.source :=
    fun span hspan => (hrest span hspan).trans hfirst.symm
  obtain ⟨joined, hjoined, hhull⟩ := exists_joinAll hsame
  have hspans : {span | span ∈ first :: rest} = spans := Set.ext hmem
  rw [hspans] at hhull
  rw [hjoined, hhull.unique h]

end Span

/-! ## Slices -/

theorem byteLength_toList (text : String) : byteLength text.toList = text.utf8ByteSize := by
  rw [byteLength_eq_utf8ByteSize, String.ofList_toList]

/-- A text is made of the part from byte `start` up to byte `stop` and of what stands
before and behind it. -/
def IsSlice (text : String) (start stop : Nat) (part : String) : Prop :=
  ∃ before after, text = before ++ part ++ after ∧ before.utf8ByteSize = start ∧
    start + part.utf8ByteSize = stop

theorem slice?_toList_eq_some_iff {text part : String} {start stop : Nat} :
    slice? text.toList start stop = some part.toList ↔ IsSlice text start stop part := by
  rw [slice?_eq_some_iff]
  constructor
  · rintro ⟨before, after, htext, hstart, hstop⟩
    refine ⟨String.ofList before, String.ofList after, ?_, ?_, ?_⟩
    · rw [String.ext_iff]
      simpa using htext
    · rwa [← byteLength_eq_utf8ByteSize]
    · rwa [← byteLength_toList]
  · rintro ⟨before, after, rfl, hstart, hstop⟩
    refine ⟨before.toList, after.toList, by simp, ?_, ?_⟩
    · rwa [byteLength_toList]
    · rwa [byteLength_toList]

/-- Of two ways to cut a text in two, the one that cuts earlier cuts the first part of
the other. -/
theorem exists_between {text a b c d : String} (hab : text = a ++ b) (hcd : text = c ++ d)
    (hle : a.utf8ByteSize ≤ c.utf8ByteSize) : ∃ between, c = a ++ between ∧ b = between ++ d := by
  have hlists : a.toList ++ b.toList = c.toList ++ d.toList := by
    rw [← String.toList_append, ← String.toList_append, ← hab, ← hcd]
  obtain ⟨between, hc, hb⟩ | ⟨excess, ha, hd⟩ := List.append_eq_append_iff.mp hlists
  · exact ⟨String.ofList between, by simp [String.ext_iff, hc], by simp [String.ext_iff, hb]⟩
  · -- Nothing can be left of the longer first part.
    have hsize := congrArg byteLength ha
    rw [byteLength_append, byteLength_toList, byteLength_toList] at hsize
    have hnil : excess = [] := byteLength_eq_zero_iff.mp (by omega)
    refine ⟨"", ?_, ?_⟩ <;> simp [String.ext_iff, ha, hd, hnil]

namespace IsSlice

variable {text part whole : String} {start stop start' stop' : Nat}

/-- The bytes of a slice are those of the text from `start` up to `stop`. -/
theorem extract_eq (h : IsSlice text start stop part) :
    text.toByteArray.extract start stop = part.toByteArray := by
  obtain ⟨before, after, rfl, hstart, hstop⟩ := h
  have hsize : stop = (before ++ part).toByteArray.size := by simp [hstart, hstop]
  rw [String.toByteArray_append, hsize, ByteArray.extract_append_size_left,
    String.toByteArray_append, ByteArray.extract_append_eq_right (by simp [hstart]) (by simp)]

/-- A slice that lies within another one is a slice of that one. -/
theorem within (h : IsSlice text start stop part) (h' : IsSlice text start' stop' whole)
    (hstart : start' ≤ start) (hstop : stop ≤ stop') :
    IsSlice whole (start - start') (start - start' + part.utf8ByteSize) part := by
  obtain ⟨before, after, htext, rfl, rfl⟩ := h
  obtain ⟨before', after', htext', rfl, rfl⟩ := h'
  rw [String.append_assoc] at htext htext'
  obtain ⟨lead, rfl, hlead⟩ := exists_between htext' htext hstart
  have hlead' : whole ++ after' = lead ++ part ++ after := by rw [hlead, String.append_assoc]
  obtain ⟨trail, rfl, _⟩ := exists_between hlead' rfl (by simp at hstop ⊢; omega)
  exact ⟨lead, trail, rfl, by simp, rfl⟩

end IsSlice

/-! ## Places between characters -/

/-- A byte offset lies between two characters exactly if a text can be cut there. -/
theorem isValid_iff_exists_cut {text : String} {offset : Nat} :
    String.Pos.Raw.IsValid text ⟨offset⟩ ↔
      ∃ before after, text = before ++ after ∧ before.utf8ByteSize = offset := by
  simp [String.Pos.Raw.isValid_iff_exists_append, String.Pos.Raw.ext_iff, eq_comm]

/-- There is a slice exactly between two places that lie between characters, the first
not behind the second. -/
theorem exists_isSlice_iff {text : String} {start stop : Nat} :
    (∃ part, IsSlice text start stop part) ↔
      start ≤ stop ∧ String.Pos.Raw.IsValid text ⟨start⟩ ∧ String.Pos.Raw.IsValid text ⟨stop⟩ := by
  simp only [isValid_iff_exists_cut]
  constructor
  · rintro ⟨part, before, after, rfl, rfl, rfl⟩
    refine ⟨Nat.le_add_right _ _, ⟨before, part ++ after, ?_, rfl⟩, before ++ part, after, rfl, ?_⟩
    · rw [String.append_assoc]
    · rw [String.utf8ByteSize_append]
  · rintro ⟨hle, ⟨before, rest, htext, rfl⟩, front, after, htext', rfl⟩
    obtain ⟨part, rfl, _⟩ := exists_between htext htext' hle
    exact ⟨part, before, after, htext', rfl, by simp⟩

/-! ## Sources -/

namespace Sources

variable {sources : Sources} {id : SourceId} {text : String}

theorem get?_add_eq_some_iff {added : String} :
    (sources.add added).get? id = some text ↔
      sources.get? id = some text ∨ added = text ∧ id = sources.nextId := by
  rw [get?_add]
  by_cases hid : id = sources.nextId
  · simp [hid, get?_nextId]
  · simp [hid]

theorem get?_foldl_add_eq_some_iff {texts : List String} :
    (texts.foldl add sources).get? id = some text ↔ sources.get? id = some text ∨
      ∃ before after, texts = before ++ text :: after ∧
        id = (before.foldl add sources).nextId := by
  induction texts generalizing sources with
  | nil => simp
  | cons first texts ih =>
    rw [List.foldl_cons, ih, get?_add_eq_some_iff, or_assoc]
    refine or_congr Iff.rfl ?_
    constructor
    · rintro (⟨rfl, rfl⟩ | ⟨before, after, rfl, rfl⟩)
      · exact ⟨[], texts, rfl, rfl⟩
      · exact ⟨first :: before, after, rfl, rfl⟩
    · rintro ⟨before, after, htexts, hid⟩
      cases before with
      | nil =>
        cases htexts
        exact .inl ⟨rfl, hid⟩
      | cons _ before =>
        cases htexts
        exact .inr ⟨before, after, rfl, hid⟩

/-- A source is known exactly if it was added, and then its text is the one that was
added. -/
theorem get?_eq_some_iff_added {texts : List String} :
    (texts.foldl add {}).get? id = some text ↔
      ∃ before after, texts = before ++ text :: after ∧ id = (before.foldl add {}).nextId := by
  rw [get?_foldl_add_eq_some_iff]
  simp [get?]

variable {span : Span} {part : String}

theorem text?_eq_some_iff :
    sources.text? span = some part ↔ ∃ text, sources.get? span.source = some text ∧
      IsSlice text span.start span.stop part := by
  simp only [text?, Option.bind_eq_bind, Option.bind_eq_some_iff, Option.pure_def,
    Option.some.injEq, ← slice?_toList_eq_some_iff]
  refine exists_congr fun text => and_congr_right fun _ => ?_
  constructor
  · rintro ⟨chars, hchars, rfl⟩
    rw [hchars, String.toList_ofList]
  · intro h
    exact ⟨part.toList, h, String.ofList_toList⟩

theorem exists_text?_iff :
    (∃ part, sources.text? span = some part) ↔ ∃ text, sources.get? span.source = some text ∧
      span.start ≤ span.stop ∧ String.Pos.Raw.IsValid text ⟨span.start⟩ ∧
        String.Pos.Raw.IsValid text ⟨span.stop⟩ := by
  simp only [text?_eq_some_iff, ← exists_isSlice_iff]
  rw [exists_comm]
  simp only [exists_and_left]

/-- The hull of some spans that cover text covers text, which holds what each of them
covers in its place. -/
theorem text?_of_isHull {hull : Span} {spans : Set Span} (h : hull.IsHull spans)
    (hspans : ∀ span ∈ spans, ∃ part, sources.text? span = some part) :
    ∃ whole, sources.text? hull = some whole ∧ ∀ span ∈ spans, ∀ part,
      sources.text? span = some part →
        IsSlice whole (span.start - hull.start) (span.start - hull.start + part.utf8ByteSize)
          part := by
  simp only [text?_eq_some_iff] at hspans ⊢
  obtain ⟨first, hfirst, hstart⟩ := h.start.1
  obtain ⟨last, hlast, hstop⟩ := h.stop.1
  obtain ⟨_, text, htext, hslice⟩ := hspans first hfirst
  -- The spans are of one source and so have one text.
  have hone : ∀ span ∈ spans, ∀ part, (∃ text, sources.get? span.source = some text ∧
      IsSlice text span.start span.stop part) → IsSlice text span.start span.stop part := by
    rintro span hmem part ⟨found, hfound, hpart⟩
    rw [h.source span hmem, ← h.source first hfirst, htext] at hfound
    cases hfound
    exact hpart
  -- The hull begins where a slice begins and ends where one ends.
  obtain ⟨whole, hwhole⟩ : ∃ whole, IsSlice text hull.start hull.stop whole := by
    obtain ⟨part, hpart⟩ := hspans last hlast
    obtain ⟨hle, hvalid, _⟩ := exists_isSlice_iff.mp ⟨_, hslice⟩
    obtain ⟨hle', _, hvalid'⟩ := exists_isSlice_iff.mp ⟨_, hone last hlast part hpart⟩
    have hbetween := h.stop_le hfirst
    exact exists_isSlice_iff.mpr ⟨by omega, hstart ▸ hvalid, hstop ▸ hvalid'⟩
  refine ⟨whole, ⟨text, by rw [← h.source first hfirst, htext], hwhole⟩, ?_⟩
  intro span hmem part hpart
  exact (hone span hmem part hpart).within hwhole (h.start_le hmem) (h.stop_le hmem)

/-- Joining preserves text, in whatever sources were added.  A span covers text exactly
if its source was added and its ends are offsets between characters of the text of that
source, the first not behind the second; it covers the bytes between them.  Spans of one
source that cover text join to one span, in every order and however often each of them
comes up.  It covers text too, and what each of the spans covers is found there, as many
bytes from the beginning as the span begins behind the joined one. -/
theorem joined_text_holds_parts {texts : List String} (hsources : sources = texts.foldl add {}) :
    (∀ span, (∃ part, sources.text? span = some part) ↔
      ∃ before text after, texts = before ++ text :: after ∧
        span.source = (before.foldl add {}).nextId ∧
        span.start ≤ span.stop ∧ span.stop ≤ text.utf8ByteSize ∧
        String.Pos.Raw.IsValid text ⟨span.start⟩ ∧ String.Pos.Raw.IsValid text ⟨span.stop⟩) ∧
    (∀ span part, sources.text? span = some part → ∃ text,
      sources.get? span.source = some text ∧
        text.toByteArray.extract span.start span.stop = part.toByteArray) ∧
    ∀ first rest, (∀ span ∈ rest, span.source = first.source) →
      (∀ span ∈ first :: rest, ∃ part, sources.text? span = some part) →
      ∃ joined whole, first.joinAll rest = .ok joined ∧
        (∀ first' rest', (∀ span, span ∈ first' :: rest' ↔ span ∈ first :: rest) →
          first'.joinAll rest' = .ok joined) ∧
        sources.text? joined = some whole ∧
        ∀ span ∈ first :: rest, ∀ part, sources.text? span = some part →
          joined.start ≤ span.start ∧
          slice? whole.toList (span.start - joined.start)
            (span.start - joined.start + part.utf8ByteSize) = some part.toList ∧
          whole.toByteArray.extract (span.start - joined.start)
            (span.start - joined.start + part.utf8ByteSize) = part.toByteArray := by
  refine ⟨?_, ?_, ?_⟩
  · intro span
    rw [exists_text?_iff]
    simp only [hsources, get?_eq_some_iff_added]
    constructor
    · rintro ⟨text, ⟨before, after, htexts, hid⟩, hle, hstart, hstop⟩
      exact ⟨before, text, after, htexts, hid, hle, hstop.le_rawEndPos, hstart, hstop⟩
    · rintro ⟨before, text, after, htexts, hid, hle, _, hstart, hstop⟩
      exact ⟨text, ⟨before, after, htexts, hid⟩, hle, hstart, hstop⟩
  · intro span part hpart
    obtain ⟨text, htext, hslice⟩ := text?_eq_some_iff.mp hpart
    exact ⟨text, htext, hslice.extract_eq⟩
  · intro first rest hsource hcover
    obtain ⟨joined, hjoined, hhull⟩ := Span.exists_joinAll hsource
    obtain ⟨whole, hwhole, hparts⟩ := text?_of_isHull hhull hcover
    refine ⟨joined, whole, hjoined, fun first' rest' => Span.joinAll_eq_of_isHull hhull, hwhole, ?_⟩
    intro span hmem part hpart
    have hslice := hparts span hmem part hpart
    exact ⟨hhull.start_le hmem, slice?_toList_eq_some_iff.mpr hslice, hslice.extract_eq⟩

/-- Two texts in which some characters have more than one byte. -/
def greetings : List String := ["é", "aé→b"]

theorem joined_text_holds_parts_greetings :
    ∃ sources : Sources, sources = greetings.foldl add {} ∧
      sources.text? ⟨2, 2, 3⟩ = none ∧ sources.text? ⟨2, 3, 7⟩ = some "→b" ∧
      sources.text? ⟨2, 1, 3⟩ = some "é" ∧
      (∃ before text after, greetings = before ++ text :: after ∧
        2 = (before.foldl add {}).nextId ∧ String.Pos.Raw.IsValid text ⟨3⟩) ∧
      ∃ whole, Span.joinAll ⟨2, 3, 7⟩ [⟨2, 1, 3⟩] = .ok ⟨2, 1, 7⟩ ∧
        Span.joinAll ⟨2, 1, 3⟩ [⟨2, 3, 7⟩, ⟨2, 1, 3⟩] = .ok ⟨2, 1, 7⟩ ∧
        sources.text? ⟨2, 1, 7⟩ = some whole ∧ slice? whole.toList 2 6 = some ['→', 'b'] := by
  obtain ⟨sources, hsources⟩ : ∃ sources : Sources, sources = greetings.foldl add {} := ⟨_, rfl⟩
  obtain ⟨hiff, _, hjoins⟩ := joined_text_holds_parts hsources
  have hinside : sources.text? ⟨2, 2, 3⟩ = none := by
    cases hsources
    decide
  have hback : sources.text? ⟨2, 3, 7⟩ = some "→b" := by
    cases hsources
    decide
  have hfront : sources.text? ⟨2, 1, 3⟩ = some "é" := by
    cases hsources
    decide
  refine ⟨sources, hsources, hinside, hback, hfront, ?_, ?_⟩
  · obtain ⟨before, text, after, htexts, hid, _, _, hstart, _⟩ := (hiff ⟨2, 3, 7⟩).mp ⟨_, hback⟩
    exact ⟨before, text, after, htexts, hid, hstart⟩
  · obtain ⟨joined, whole, hjoined, horders, hwhole, hparts⟩ :=
      hjoins ⟨2, 3, 7⟩ [⟨2, 1, 3⟩] (by decide) (by simp [hback, hfront])
    cases hjoined
    exact ⟨whole, rfl, horders _ _ (by simp), hwhole, (hparts _ (by simp) _ hback).2.1⟩

end Sources

end Dataflow
