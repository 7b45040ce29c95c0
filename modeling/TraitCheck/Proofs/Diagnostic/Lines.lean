import Mathlib
import TraitCheck.Diagnostic.Render

/-!
# Quoted lines

An offset divides a file into the lines before its own line, the parts of that line before and after
the offset, and the lines after it. All pieces that are cut out of a file when a label is quoted are
given by this division, so they lie inside the file, wherever the label ends.
-/

namespace TraitCheck

theorem Bytes.slice?_middle (left right : Bytes) {bytes middle : Bytes} {start stop : Int}
    (whole : bytes = left ++ middle ++ right) (atStart : start = left.length)
    (atStop : stop = (left ++ middle).length) : bytes.slice? start stop = some middle := by
  subst whole atStart atStop
  have ordered : (0 : Int) ≤ left.length ∧ (left.length : Int) ≤ (left ++ middle).length ∧
      ((left ++ middle).length : Int) ≤ (left ++ middle ++ right).length := by
    simp only [List.length_append]
    omega
  rw [Bytes.slice?, if_pos ordered, Int.toNat_natCast, Int.toNat_natCast, List.take_left,
    List.drop_left]

namespace Source

/-- A line without its carriage return. -/
def chomp (line : Bytes) : Bytes :=
  if line.getLast? = some carriageReturn then line.dropLast else line

theorem chomp_isPrefix (line : Bytes) : chomp line <+: line := by
  unfold chomp
  split
  · exact List.dropLast_prefix line
  · exact List.prefix_rfl

/-- A file that is divided at an offset. -/
structure Divided where
  /-- The lines before the offset's own, with their newlines. -/
  earlier : Bytes
  before : Bytes
  after : Bytes
  later : Bytes
  onLine : newline ∉ before ++ after
  starts : earlier = [] ∨ ∃ lines, earlier = lines ++ [newline]
  ends : later = [] ∨ ∃ lines, later = newline :: lines

namespace Divided

/-- The line around the offset. -/
def line (file : Divided) : Bytes := file.before ++ file.after

/-- The whole file. -/
def source (file : Divided) : Bytes := file.earlier ++ file.line ++ file.later

/-- The place at which the line is divided. -/
def offset (file : Divided) : Nat := (file.earlier ++ file.before).length

end Divided

theorem exists_firstLine {α : Type} (mark : α) (items : List α) :
    ∃ line later, items = line ++ later ∧ mark ∉ line ∧
      (later = [] ∨ ∃ lines, later = mark :: lines) := by
  by_cases found : mark ∈ items
  · obtain ⟨line, lines, whole, absent⟩ := List.eq_append_cons_of_mem found
    exact ⟨line, _, whole, absent, .inr ⟨lines, rfl⟩⟩
  · exact ⟨items, [], (List.append_nil _).symm, found, .inl rfl⟩

theorem exists_lastLine {α : Type} (mark : α) (items : List α) :
    ∃ earlier line, items = earlier ++ line ∧ mark ∉ line ∧
      (earlier = [] ∨ ∃ lines, earlier = lines ++ [mark]) := by
  obtain ⟨line, earlier, whole, absent, starts⟩ := exists_firstLine mark items.reverse
  refine ⟨earlier.reverse, line.reverse, ?_, by simpa using absent, ?_⟩
  · rw [← List.reverse_append, ← whole, List.reverse_reverse]
  · rcases starts with rfl | ⟨lines, rfl⟩
    · exact .inl rfl
    · exact .inr ⟨lines.reverse, List.reverse_cons⟩

theorem exists_divided {source : Bytes} {offset : Nat} (inside : offset ≤ source.length) :
    ∃ file : Divided, file.source = source ∧ file.offset = offset := by
  obtain ⟨after, later, wholeAfter, noneAfter, ends⟩ :=
    exists_firstLine newline (source.drop offset)
  obtain ⟨earlier, before, taken, noneBefore, starts⟩ :=
    exists_lastLine newline (source.take offset)
  have whole : earlier ++ (before ++ after) ++ later = source := by
    rw [← List.append_assoc, ← taken, List.append_assoc, ← wholeAfter, List.take_append_drop]
  have onLine : newline ∉ before ++ after := by simpa using ⟨noneBefore, noneAfter⟩
  refine ⟨⟨earlier, before, after, later, onLine, starts, ends⟩, whole, ?_⟩
  rw [Divided.offset, ← taken, List.length_take, Nat.min_eq_left inside]

namespace Divided

variable (file : Divided) {position : Int}

theorem headLength_after : headLength (file.after ++ file.later) = file.after.length := by
  have none : ∀ byte ∈ file.after, decide (byte ≠ newline) = true := fun byte member =>
    decide_eq_true fun same => file.onLine (List.mem_append_right _ (same ▸ member))
  rw [headLength, List.takeWhile_append_of_pos none]
  rcases file.ends with nothing | ⟨lines, next⟩
  · simp [nothing]
  · simp [next]

theorem tailLength_before : tailLength (file.earlier ++ file.before) = file.before.length := by
  have none : ∀ byte ∈ file.before.reverse, decide (byte ≠ newline) = true := fun byte member =>
    decide_eq_true fun same =>
      file.onLine (List.mem_append_left _ (same ▸ List.mem_reverse.mp member))
  rw [tailLength, List.reverse_append, List.takeWhile_append_of_pos none]
  rcases file.starts with nothing | ⟨lines, previous⟩
  · simp [nothing]
  · simp [previous]

theorem count_before : (file.earlier ++ file.before).count newline =
    file.earlier.count newline := by
  have none : newline ∉ file.before := fun found => file.onLine (List.mem_append_left _ found)
  rw [List.count_append, List.count_eq_zero_of_not_mem none, Nat.add_zero]

theorem stop_eq :
    (if file.earlier.length < (file.earlier ++ file.line).length ∧
        file.source[(file.earlier ++ file.line).length - 1]? = some carriageReturn then
      (file.earlier ++ file.line).length - 1 else (file.earlier ++ file.line).length) =
      (file.earlier ++ chomp file.line).length := by
  unfold chomp
  by_cases empty : file.line = []
  · simp [empty]
  · have positive := List.length_pos_of_ne_nil empty
    have last : file.source[(file.earlier ++ file.line).length - 1]? = file.line.getLast? := by
      rw [source, List.append_assoc, List.length_append, Nat.add_sub_assoc positive,
        List.getElem?_append_right (Nat.le_add_right _ _), Nat.add_sub_cancel_left,
        List.getElem?_append_left (Nat.sub_lt positive Nat.one_pos), List.getLast?_eq_getElem?]
    have nonempty : file.earlier.length < (file.earlier ++ file.line).length := by
      rw [List.length_append]
      omega
    simp only [last, nonempty, true_and]
    split
    · rw [List.length_append, List.length_append, List.length_dropLast,
        Nat.add_sub_assoc positive]
    · rfl

theorem clamped (starts : position = file.offset) :
    min position file.source.length = file.offset := by
  rw [starts, offset, source, line]
  simp only [List.length_append]
  omega

theorem lineAt?_eq (clamped : min position file.source.length = file.offset) :
    lineAt? file.source position = some
      ⟨file.earlier.count newline + 1, file.earlier.length,
        (file.earlier ++ chomp file.line).length⟩ := by
  have early : file.source.slice? 0 file.offset = some (file.earlier ++ file.before) :=
    Bytes.slice?_middle [] (file.after ++ file.later)
      (by simp [source, line]) rfl rfl
  have late : file.source.slice? file.offset file.source.length = some (file.after ++ file.later) :=
    Bytes.slice?_middle (file.earlier ++ file.before) []
      (by simp [source, line]) rfl (by simp [source, line])
  have start : (file.earlier ++ file.before).length - file.before.length = file.earlier.length := by
    simp
  have stop : (file.earlier ++ file.before).length + file.after.length =
      (file.earlier ++ file.line).length := by
    simp [line, Nat.add_assoc]
  simp only [lineAt?, clamped, early, late, Option.bind_eq_bind, Option.bind_some,
    headLength_after, tailLength_before, count_before, start, stop, stop_eq]

theorem splitOn_lengths (bytes : Bytes) :
    (bytes.splitOn newline).length = bytes.count newline + 1 ∧
      ((bytes.splitOn newline).map (·.length + 1)).sum = bytes.length + 1 := by
  induction bytes with
  | nil => simp
  | cons byte rest ih =>
    obtain ⟨first, others, split⟩ := List.exists_cons_of_ne_nil (List.splitOn_ne_nil newline rest)
    rw [List.splitOn_cons_eq_if_modifyHead]
    rw [split] at ih ⊢
    by_cases isNewline : byte = newline
    · subst isNewline
      simp only [BEq.rfl, ↓reduceIte, List.length_cons, List.map_cons, List.sum_cons,
        List.length_nil, List.count_cons_self] at ih ⊢
      omega
    · rw [if_neg (by simpa using isNewline), List.count_cons_of_ne isNewline]
      simp only [List.modifyHead_cons, List.length_cons, List.map_cons, List.sum_cons] at ih ⊢
      omega

theorem splitOn_line :
    ∃ more, (file.line ++ file.later).splitOn newline = file.line :: more := by
  have onLine : newline ∉ file.line := file.onLine
  rcases file.ends with nothing | ⟨lines, next⟩
  · exact ⟨[], by rw [nothing, List.append_nil, List.splitOn_eq_singleton onLine]⟩
  · exact ⟨_, by rw [next, List.splitOn_append_cons_self_of_not_mem onLine]⟩

theorem splitOn_source :
    ∃ segments more, file.source.splitOn newline = segments ++ file.line :: more ∧
      segments.length = file.earlier.count newline ∧
      (segments.map (·.length + 1)).sum = file.earlier.length := by
  obtain ⟨more, split⟩ := file.splitOn_line
  rw [source, List.append_assoc]
  rcases file.starts with nothing | ⟨lines, previous⟩
  · exact ⟨[], more, by rw [nothing, List.nil_append, split, List.nil_append], by simp [nothing],
      by simp [nothing]⟩
  · obtain ⟨length, sum⟩ := splitOn_lengths lines
    refine ⟨lines.splitOn newline, more, ?_, by simp [length, previous], by simp [sum, previous]⟩
    rw [previous, List.append_assoc, List.singleton_append, List.splitOn_append_cons_self, split]

/-- The text of a span on the line of its start. -/
def covered (stop : Int) : Bytes :=
  file.after.take (min stop (file.earlier ++ chomp file.line).length - file.offset).toNat

theorem slice?_line :
    file.source.slice? file.earlier.length (file.earlier ++ chomp file.line).length =
      some (chomp file.line) := by
  obtain ⟨ending, line_eq⟩ := chomp_isPrefix file.line
  refine Bytes.slice?_middle file.earlier (ending ++ file.later) ?_ rfl rfl
  conv_lhs => rw [source, ← line_eq]
  simp

theorem slice?_before :
    file.source.slice? file.earlier.length file.offset = some file.before :=
  Bytes.slice?_middle file.earlier (file.after ++ file.later) (by simp [source, line]) rfl rfl

theorem slice?_covered (stop : Int) :
    file.source.slice? file.offset
      (max file.offset (min stop (file.earlier ++ chomp file.line).length)) =
        some (file.covered stop) := by
  have short : (file.earlier ++ chomp file.line).length ≤ file.offset + file.after.length := by
    have := (chomp_isPrefix file.line).length_le
    simp only [line, offset, List.length_append] at this ⊢
    omega
  have whole : file.source = file.earlier ++ file.before ++ file.covered stop ++
      (file.after.drop (min stop (file.earlier ++ chomp file.line).length - file.offset).toNat ++
        file.later) := by
    rw [covered, List.append_assoc _ (List.take _ _), ← List.append_assoc (List.take _ _),
      List.take_append_drop]
    simp [source, line]
  have length : (file.earlier ++ file.before ++ file.covered stop).length = file.offset +
      min (min stop (file.earlier ++ chomp file.line).length - file.offset).toNat
        file.after.length := by
    rw [List.length_append, covered, List.length_take]
    rfl
  refine Bytes.slice?_middle _ _ whole rfl ?_
  rw [length]
  omega

end Divided

end Source

namespace Renderer

open Source

variable (renderer : Renderer) (file : Divided) {span : Span}

theorem markers?_eq (columns : Char → Nat) (number : Nat) (starts : span.start = file.offset) :
    renderer.markers? columns file.source
        ⟨number, file.earlier.length, (file.earlier ++ chomp file.line).length⟩ span =
      let width := Width.ofBytes columns renderer.tabColumns (file.covered span.stop)
      some ⟨Width.ofBytes columns renderer.tabColumns file.before,
        if width = 0 then 1 else width⟩ := by
  simp only [markers?, starts, file.slice?_before, file.slice?_covered, Option.bind_eq_bind,
    Option.bind_some]

theorem quotedLabel?_eq_none_iff {columns : Char → Nat} {colored : Bool} {severity : Severity}
    {label : Label} (starts : label.span.start = file.offset) :
    renderer.quotedLabel? columns colored severity file.source label = none ↔
      maxTabColumns < renderer.tabColumns := by
  simp only [quotedLabel?, file.lineAt?_eq (file.clamped starts), file.slice?_line,
    renderer.markers?_eq file _ _ starts, Option.bind_eq_bind, Option.bind_some]
  by_cases narrow : renderer.tabColumns ≤ maxTabColumns
  · simp [guard, narrow]
  · simp [guard, narrow, Nat.lt_of_not_le narrow]

/-- A line is found for every offset that is not negative. It is the segment between newlines that
follows as many newlines as stand before the offset, without a carriage return at its end. For every
label that starts in a file, whatever its end and however wide its characters are, all slices of the
file that are needed to quote it exist and its markers are at least one. So the label is printed,
unless a tab is wider than any text. -/
theorem line_and_label_in_bounds (source : Bytes) :
    (∀ offset : Int, 0 ≤ offset → ∃ line segment,
      lineAt? source offset = some line ∧
      line.number = (source.take offset.toNat).count newline + 1 ∧
      (source.splitOn newline)[line.number - 1]? = some segment ∧
      line.start = (((source.splitOn newline).take (line.number - 1)).map (·.length + 1)).sum ∧
      line.stop = line.start + (chomp segment).length ∧
      source.slice? line.start line.stop = some (chomp segment)) ∧
    ∀ (renderer : Renderer) (columns : Char → Nat) (label : Label), 0 ≤ label.span.start →
      renderer.sources.find? label.span.file = some source →
      (label.span.start ≤ source.length → ∃ line quoted markers,
        lineAt? source label.span.start = some line ∧
        source.slice? line.start line.stop = some quoted ∧
        renderer.markers? columns source line label.span = some markers ∧
        0 < markers.count) ∧
      ∀ colored severity, renderer.label? columns colored severity label = none ↔
        label.span.start ≤ source.length ∧ maxTabColumns < renderer.tabColumns := by
  refine ⟨fun offset positive => ?_, fun renderer columns label positive known =>
    ⟨fun inside => ?_, fun colored severity => ?_⟩⟩
  · obtain ⟨file, rfl, atOffset⟩ := exists_divided (Nat.min_le_right offset.toNat source.length)
    have clamped : min offset file.source.length = file.offset := by omega
    obtain ⟨segments, more, split, count, sum⟩ := file.splitOn_source
    have taken : (file.source.take offset.toNat).count newline = file.earlier.count newline := by
      have early : file.source.take offset.toNat = file.earlier ++ file.before := by
        rw [List.take_eq_take_min, ← atOffset]
        have whole : file.source = file.earlier ++ file.before ++ (file.after ++ file.later) := by
          simp [Divided.source, Divided.line]
        rw [whole]
        exact List.take_left
      rw [early, file.count_before]
    refine ⟨_, file.line, file.lineAt?_eq clamped, by rw [taken], ?_, ?_, ?_, file.slice?_line⟩
    · rw [split, Nat.add_sub_cancel, ← count]
      simp
    · rw [split, Nat.add_sub_cancel, ← count, List.take_left, sum]
    · exact List.length_append
  · obtain ⟨file, rfl, atOffset⟩ :=
      exists_divided (show label.span.start.toNat ≤ source.length by omega)
    have starts : label.span.start = file.offset := by omega
    refine ⟨_, _, _, file.lineAt?_eq (by omega), file.slice?_line,
      renderer.markers?_eq file _ _ starts, ?_⟩
    dsimp only
    split <;> omega
  · rw [label?, known]
    dsimp only
    split
    · next outside =>
        simp only [reduceCtorEq, false_iff, not_and]
        omega
    · next inside =>
        obtain ⟨file, rfl, atOffset⟩ :=
          exists_divided (show label.span.start.toNat ≤ source.length by omega)
        rw [renderer.quotedLabel?_eq_none_iff file (by omega)]
        simp only [Int.not_lt.mp inside, true_and]

/-- Two lines, of which the first ends with a carriage return and a newline. -/
def crlfFile : Bytes := [97, 13, 10, 9, 98]

/-- A label that starts at the newline and ends before the file. -/
def newlineLabel : Label := { span := { start := 2, stop := -1, file := "f" } }

theorem line_and_label_in_bounds_newline :
    (∃ line segment, lineAt? crlfFile 2 = some line ∧
      line.number = (crlfFile.take 2).count newline + 1 ∧
      (crlfFile.splitOn newline)[line.number - 1]? = some segment ∧
      line.stop = line.start + (chomp segment).length) ∧
    (∃ line quoted markers, lineAt? crlfFile 2 = some line ∧
      crlfFile.slice? line.start line.stop = some quoted ∧
      (Renderer.mk ⟨[("f", crlfFile)]⟩ .auto 0).markers? Width.columns crlfFile line
        newlineLabel.span = some markers ∧ 0 < markers.count) ∧
    (Renderer.mk ⟨[("f", crlfFile)]⟩ .auto 0).label? Width.columns false .error newlineLabel ≠
      none := by
  have ⟨lines, labels⟩ := line_and_label_in_bounds crlfFile
  have ⟨quotes, printed⟩ := labels ⟨⟨[("f", crlfFile)]⟩, .auto, 0⟩ Width.columns newlineLabel
    (by decide) rfl
  obtain ⟨line, segment, found, number, isSegment, _, stop, _⟩ := lines 2 (by decide)
  obtain ⟨line', quoted, markers, found', isQuoted, marked, positive⟩ := quotes (by decide)
  refine ⟨⟨line, segment, found, number, isSegment, stop⟩,
    ⟨line', quoted, markers, found', isQuoted, marked, positive⟩, ?_⟩
  rw [Ne, printed]
  decide

end Renderer

end TraitCheck
