import ChatHistory.Markup.CommandEcho
import ChatHistory.Proofs.Text.Scan

/-!
# Reading the echo of a command

An echo is written as elements of the known tags with other characters between them (`Segment`).
Whatever the order and the number of the segments, it is read as it was written: the first element
with a name gives the command, and what was typed behind it is in the first element with arguments,
or else outside the elements (`parse_segments`).

No `<` stands in a body or outside the elements, so an element of a tag begins exactly where a
segment of this tag does (`scan_flatMap_text`).  Taking out the elements of one tag therefore leaves
the other segments as they were written, and the next tag can be taken out
(`withoutElements_flatMap_text`).
-/

namespace ChatHistory.CommandEcho

open Text

/-! ## Segments -/

/-- A segment of a written echo: an element of a known tag, or characters outside the elements. -/
inductive Segment where
  | element (tag : String) (known : tag ∈ tags) (body : List Char) (unmarked : '<' ∉ body)
  | outside (chars : List Char) (unmarked : '<' ∉ chars)

namespace Segment

/-- The characters of a segment. -/
def text : Segment → List Char
  | element tag _ body _ => openTag tag ++ body ++ closeTag tag
  | outside chars _ => chars

/-- The body of a segment that is an element of the tag. -/
def bodyOf? (tag : String) : Segment → Option (List Char)
  | element other _ body _ => if other = tag then some body else none
  | outside _ _ => none

/-- The characters of a segment outside the elements. -/
def outsideText : Segment → List Char
  | element .. => []
  | outside chars _ => chars

/-- What a scan for the elements of a tag makes of a segment. -/
def pieces (tag : String) (segment : Segment) : List (List Char ⊕ Char) :=
  match segment.bodyOf? tag with
  | some body => [.inl body]
  | none => segment.text.map .inr

end Segment

/-- The bodies of the elements of a tag, in order. -/
def bodies (tag : String) (segments : List Segment) : List (List Char) :=
  segments.filterMap (Segment.bodyOf? tag)

/-! ## Where an element begins -/

variable {tag : String}

lemma element_eq_none {text : List Char} (h : ¬openTag tag <+: text) : element tag text = none := by
  cases hopen : (openTag tag).isPrefixOf? text with
  | none => simp [element, hopen]
  | some rest => exact absurd ⟨rest, List.append_eq_of_isPrefixOf?_eq_some hopen⟩ h

/-- No element begins with another character than `<`. -/
lemma element_cons_of_ne {c : Char} (h : c ≠ '<') (rest : List Char) :
    element tag (c :: rest) = none := by
  refine element_eq_none fun begins => ?_
  rw [openTag, List.cons_append, List.cons_prefix_cons] at begins
  exact h begins.1.symm

lemma scan_append_of_unmarked {front : List Char} (unmarked : '<' ∉ front) (rest : List Char) :
    scan (element tag) (front ++ rest) = front.map .inr ++ scan (element tag) rest :=
  scan_append_of_none
    (fun _ hc => element_cons_of_ne (ne_of_mem_of_not_mem hc unmarked)) rest

/-- No element begins with the closing tag of one. -/
lemma element_closing (known : tag ∈ tags) (rest : List Char) :
    element tag ('<' :: '/' :: rest) = none := by
  have hslash : ∀ tag ∈ tags, (tag.toList ++ ['>']).head? ≠ some '/' := by decide +kernel
  refine element_eq_none fun begins => hslash tag known ?_
  rw [openTag, List.cons_append, List.cons_prefix_cons] at begins
  obtain ⟨behind, hbehind⟩ := begins.2
  cases hname : tag.toList ++ ['>'] with
  | nil => simp at hname
  | cons c name =>
    rw [hname, List.cons_append] at hbehind
    rw [(List.cons.inj hbehind).1, List.head?_cons]

/-- Elements of different tags begin differently. -/
lemma element_other (known : tag ∈ tags) {other : String} (hother : other ∈ tags)
    (differs : other ≠ tag) (rest : List Char) : element tag (openTag other ++ rest) = none := by
  have apart : ∀ tag ∈ tags, ∀ other ∈ tags, other ≠ tag → ¬openTag tag <+: openTag other := by
    decide +kernel
  refine element_eq_none fun begins => ?_
  exact (List.prefix_or_prefix_of_prefix begins (List.prefix_append _ rest)).elim
    (apart tag known other hother differs) (apart other hother tag known differs.symm)

/-- An element is matched as a whole. -/
lemma element_text {body : List Char} (unmarked : '<' ∉ body) (rest : List Char) :
    element tag (openTag tag ++ body ++ closeTag tag ++ rest) =
      some (body, (openTag tag ++ body ++ closeTag tag).length - 1) := by
  have htake : (body ++ (closeTag tag ++ rest)).takeWhile (· ≠ '<') = body :=
    takeWhile_ne_append_cons unmarked _
  have hlength : (openTag tag ++ (body ++ (closeTag tag ++ rest))).length - rest.length - 1 =
      (openTag tag ++ (body ++ closeTag tag)).length - 1 := by
    simp only [List.length_append]
    omega
  simp only [element, List.append_assoc, isPrefixOf?_append, Option.bind_eq_bind, Option.bind_some,
    htake, List.drop_left, hlength]
  rfl

/-! ## All segments -/

/-- Nothing is found in an element of another tag. -/
lemma scan_append_of_other (known : tag ∈ tags) {other : String} (hother : other ∈ tags)
    (differs : other ≠ tag) {body : List Char} (unmarked : '<' ∉ body) (rest : List Char) :
    scan (element tag) (openTag other ++ body ++ closeTag other ++ rest) =
      (openTag other ++ body ++ closeTag other).map .inr ++ scan (element tag) rest := by
  have plain : ∀ tag ∈ tags, '<' ∉ tag.toList := by decide +kernel
  let front := other.toList ++ '>' :: body
  let back := '/' :: (other.toList ++ ['>'])
  have hfront : '<' ∉ front := by simp [front, plain other hother, unmarked]
  have hback : '<' ∉ back := by simp [back, plain other hother]
  have htext : openTag other ++ body ++ closeTag other = '<' :: (front ++ '<' :: back) := by
    simp [openTag, closeTag, front, back]
  have hopening : element tag ('<' :: (front ++ '<' :: (back ++ rest))) = none := by
    simpa [openTag, front] using
      element_other known hother differs (body ++ '<' :: (back ++ rest))
  have hclosing : element tag ('<' :: (back ++ rest)) = none := element_closing known _
  calc scan (element tag) (openTag other ++ body ++ closeTag other ++ rest)
      = scan (element tag) ('<' :: (front ++ '<' :: (back ++ rest))) := by simp [htext]
    _ = .inr '<' :: (front.map .inr ++ .inr '<' :: (back.map .inr ++ scan (element tag) rest)) := by
      rw [scan_cons_of_none hopening, scan_append_of_unmarked hfront,
        scan_cons_of_none hclosing, scan_append_of_unmarked hback]
    _ = (openTag other ++ body ++ closeTag other).map .inr ++ scan (element tag) rest := by
      simp [htext]

/-- A scan for the elements of a tag goes from one segment to the next. -/
lemma scan_text_append (known : tag ∈ tags) (segment : Segment) (rest : List Char) :
    scan (element tag) (segment.text ++ rest) =
      segment.pieces tag ++ scan (element tag) rest := by
  cases segment with
  | outside chars unmarked => exact scan_append_of_unmarked unmarked rest
  | element other hother body unmarked =>
    rw [Segment.text, Segment.pieces, Segment.bodyOf?]
    by_cases same : other = tag
    · subst same
      have filled : openTag other ++ body ++ closeTag other ≠ [] := by simp [openTag]
      rw [scan_append_of_match filled (element_text unmarked rest), if_pos rfl]
      rfl
    · rw [scan_append_of_other known hother same unmarked, if_neg same]
      rfl

lemma scan_flatMap_text (known : tag ∈ tags) (segments : List Segment) :
    scan (element tag) (segments.flatMap Segment.text) =
      segments.flatMap (Segment.pieces tag) := by
  induction segments with
  | nil => rfl
  | cons segment segments ih =>
    rw [List.flatMap_cons, scan_text_append known, ih, List.flatMap_cons]

/-- The elements of a tag are found in order. -/
lemma found_flatMap_pieces (segments : List Segment) :
    found (segments.flatMap (Segment.pieces tag)) = bodies tag segments := by
  induction segments with
  | nil => rfl
  | cons segment segments ih =>
    rw [List.flatMap_cons, found_append, ih, bodies, bodies]
    cases hbody : segment.bodyOf? tag with
    | some body => simp [Segment.pieces, hbody, found]
    | none => simp [Segment.pieces, hbody, found_map_inr]

/-- Besides the elements of a tag, the other segments are left. -/
lemma unmatched_flatMap_pieces (segments : List Segment) :
    unmatched (segments.flatMap (Segment.pieces tag)) =
      (segments.filter fun segment => (segment.bodyOf? tag).isNone).flatMap Segment.text := by
  induction segments with
  | nil => rfl
  | cons segment segments ih =>
    rw [List.flatMap_cons, unmatched_append, ih]
    cases hbody : segment.bodyOf? tag with
    | some body => simp [Segment.pieces, hbody, unmatched]
    | none => simp [Segment.pieces, hbody, unmatched_map_inr]

/-- The body of the first element of a tag. -/
lemma body?_flatMap_text (known : tag ∈ tags) (segments : List Segment) :
    body? tag (segments.flatMap Segment.text) = (bodies tag segments).head? := by
  have empty : element tag [] = none := element_eq_none (by simp [openTag])
  rw [body?, search_eq_head?_found empty, scan_flatMap_text known, found_flatMap_pieces]

/-- Taking out the elements of some tags leaves the other segments. -/
lemma withoutElements_flatMap_text {removed : List String} (known : ∀ tag ∈ removed, tag ∈ tags)
    (segments : List Segment) :
    withoutElements removed (segments.flatMap Segment.text) =
      (segments.filter fun segment => removed.all fun tag => (segment.bodyOf? tag).isNone).flatMap
        Segment.text := by
  induction removed generalizing segments with
  | nil => simp [withoutElements]
  | cons tag removed ih =>
    obtain ⟨htag, hremoved⟩ := List.forall_mem_cons.1 known
    calc withoutElements (tag :: removed) (segments.flatMap Segment.text)
        = withoutElements removed
            (unmatched (scan (element tag) (segments.flatMap Segment.text))) := rfl
      _ = withoutElements removed ((segments.filter fun segment =>
            (segment.bodyOf? tag).isNone).flatMap Segment.text) := by
          rw [scan_flatMap_text htag, unmatched_flatMap_pieces]
      _ = _ := by
          rw [ih hremoved, List.filter_filter]
          simp only [List.all_cons, Bool.and_comm]

/-- Without the elements of all tags, the characters outside them are left. -/
lemma withoutElements_tags (segments : List Segment) :
    withoutElements tags (segments.flatMap Segment.text) =
      segments.flatMap Segment.outsideText := by
  rw [withoutElements_flatMap_text fun _ => id]
  induction segments with
  | nil => rfl
  | cons segment segments ih =>
    rw [List.flatMap_cons, ← ih]
    cases segment with
    | outside chars unmarked =>
      rw [List.filter_cons_of_pos (by simp [Segment.bodyOf?]), List.flatMap_cons]
      rfl
    | element tag known body unmarked =>
      rw [List.filter_cons_of_neg]
      · rfl
      · simp only [List.all_eq_true, not_forall]
        exact ⟨tag, known, by simp [Segment.bodyOf?]⟩

/-- Of a command name at most one slash in front is left out. -/
lemma commandName_eq (name : List Char) :
    commandName name = if name.head? = some '/' then name.tail else name := by
  cases name with
  | nil => rfl
  | cons c rest =>
    by_cases slash : c = '/'
    · subst slash
      rfl
    · simp [commandName, slash]

/-- The command that segments echo, if one of them is an element with a name.  The first name
counts, without one slash in front of it.  What was typed is the first element with arguments, or if
that is missing or blank, what stands outside the elements. -/
def echoed (segments : List Segment) : Option CommandEcho :=
  (bodies "command-name" segments).head?.map fun name =>
    let arguments := strip ((bodies "command-args" segments).head?.getD [])
    let others := strip (segments.flatMap Segment.outsideText)
    { name := String.ofList (if name.head? = some '/' then name.tail else name)
      userText := String.ofList (if arguments = [] then others else arguments) }

/-- A text made of segments is read as the command that the segments echo, and as none exactly if no
segment is an element with a name. -/
theorem parse_segments (segments : List Segment) :
    let text := String.ofList (segments.flatMap Segment.text)
    parse text = echoed segments ∧
      (parse text = none ↔ ∀ segment ∈ segments, segment.bodyOf? "command-name" = none) := by
  intro text
  have hname : body? "command-name" (segments.flatMap Segment.text) =
      (bodies "command-name" segments).head? := body?_flatMap_text (by decide) segments
  have harguments : body? "command-args" (segments.flatMap Segment.text) =
      (bodies "command-args" segments).head? := body?_flatMap_text (by decide) segments
  have hparse : parse text = echoed segments := by
    simp only [text, parse, echoed, String.toList_ofList, hname, harguments, withoutElements_tags,
      commandName_eq, List.isEmpty_iff]
  refine ⟨hparse, ?_⟩
  rw [hparse, echoed, Option.map_eq_none_iff, List.head?_eq_none_iff, bodies,
    List.filterMap_eq_nil_iff]

example : parse "<command-name>/x</command-name> a <command-args> </command-args>b" =
    some ⟨"x", "a b"⟩ := by decide +kernel

end ChatHistory.CommandEcho
