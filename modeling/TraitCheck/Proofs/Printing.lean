import TraitCheck.Proofs.Types
import TraitCheck.Ty.Printer

/-!
# Printed types can be read back in one way only

The proof compares printed types with some text behind them. What may stand behind a type in a
printed type is described by `Printing.Ends`: it goes on neither with a number nor with arguments
nor with an arrow. What stands behind the last of several types is described by `Printing.Closes`,
which also tells it from a further type of the list.
-/

namespace TraitCheck

namespace Printing

variable {α : Type} {text text' rest rest' : List Char}

def isNumeral (c : Char) : Bool := c.isDigit || c = '-'

def isLabelChar (c : Char) : Bool := c.isAlphanum || c = '_'

/-- The text does not begin with a character of the given kind. -/
def Stops (kind : Char → Bool) (rest : List Char) : Prop := ∀ c ∈ rest.head?, kind c = false

/-- The text does not go on with a type that was printed before it. -/
structure Ends (rest : List Char) : Prop where
  numeral : Stops isNumeral rest
  args : rest.head? ≠ some '<'
  arrow : ¬[' ', '-'] <+: rest

/-- The text ends a list of types. -/
inductive Closes : List Char → Prop
  | paren (rest : List Char) : Closes (')' :: rest)
  | angle (rest : List Char) : Closes ('>' :: rest)
  | comma (rest : List Char) : Closes (',' :: ')' :: rest)
  | brace (rest : List Char) : Closes (' ' :: '\x7d' :: rest)

/-- Whether a list of types may end with a character, or go on with it. -/
def isCloser (c : Char) : Bool := c = ')' || c = '>' || c = ',' || c = ' '

/-- The text starts with no closing character. -/
def Opens (text : List Char) : Prop := ∃ c rest, text = c :: rest ∧ isCloser c = false

theorem ends_nil : Ends [] := ⟨nofun, nofun, by simp⟩

theorem ends_comma (rest : List Char) : Ends (',' :: rest) := by
  refine ⟨?_, by simp, by simp⟩
  rintro _ ⟨⟩
  rfl

theorem Closes.ends (closes : Closes rest) : Ends rest := by
  cases closes with
  | paren rest | angle rest | brace rest => exact ⟨by rintro _ ⟨⟩; rfl, by simp, by simp⟩
  | comma rest => exact ends_comma _

theorem Closes.not_opens (closes : Closes rest) (opens : Opens text) : rest ≠ text ++ rest' := by
  obtain ⟨c, tail, rfl, noCloser⟩ := opens
  intro same
  cases closes <;> obtain ⟨rfl, _⟩ := List.cons.inj same <;> cases noCloser

theorem Closes.not_more (closes : Closes rest) : rest ≠ ',' :: ' ' :: rest' := by
  rintro rfl
  cases closes

theorem run_unique {kind : Char → Bool} (all : ∀ c ∈ text, kind c = true)
    (all' : ∀ c ∈ text', kind c = true) (stops : Stops kind rest) (stops' : Stops kind rest')
    (same : text ++ rest = text' ++ rest') : text = text' ∧ rest = rest' := by
  have split : ∀ text rest : List Char, (∀ c ∈ text, kind c = true) → Stops kind rest →
      (text ++ rest).takeWhile kind = text := by
    intro text rest all stops
    have behind : rest.takeWhile kind = [] := by
      cases rest with
      | nil => rfl
      | cons c rest => rw [List.takeWhile_cons_of_neg (by simp [stops c rfl])]
    rw [List.takeWhile_append_of_pos all, behind, List.append_nil]
  have first : text = text' := by
    rw [← split text rest all stops, ← split text' rest' all' stops', same]
  subst first
  exact ⟨rfl, List.append_cancel_left same⟩

/-- Texts with commas between them. -/
def listed (texts : List (List Char)) : List Char := [',', ' '].intercalate texts

theorem listed_cons (text : List Char) (texts : List (List Char)) :
    listed (text :: texts) = text ++ if texts = [] then [] else ',' :: ' ' :: listed texts := by
  cases texts <;> simp [listed]

/-- An item of a class can be told from all others of the class by its text, whatever may follow. -/
def Readable (shown : α → List Char) (good : α → Prop) (item : α) : Prop :=
  ∀ ⦃item' rest rest'⦄, good item' → Ends rest → Ends rest' →
    shown item ++ rest = shown item' ++ rest' → item = item' ∧ rest = rest'

theorem listed_unique {shown : α → List Char} {good : α → Prop} {items items' : List α}
    (opens : ∀ item, good item → Opens (shown item))
    (each : ∀ item ∈ items, Readable shown good item)
    (areGood : ∀ item ∈ items, good item) (areGood' : ∀ item ∈ items', good item)
    (closes : Closes rest) (closes' : Closes rest')
    (same : listed (items.map shown) ++ rest = listed (items'.map shown) ++ rest') :
    items = items' ∧ rest = rest' := by
  induction items generalizing items' with
  | nil =>
    cases items' with
    | nil => exact ⟨rfl, same⟩
    | cons item' others' =>
      rw [List.map_cons, listed_cons, List.append_assoc] at same
      exact absurd same (closes.not_opens (opens item' (areGood' item' List.mem_cons_self)))
  | cons item others ih =>
    rw [List.forall_mem_cons] at each areGood
    cases items' with
    | nil =>
      rw [List.map_cons, listed_cons, List.append_assoc] at same
      exact absurd same.symm (closes'.not_opens (opens item areGood.1))
    | cons item' others' =>
      rw [List.forall_mem_cons] at areGood'
      simp only [List.map_cons, listed_cons, List.append_assoc, List.map_eq_nil_iff] at same
      -- Behind each item there is a comma or what closes the list.
      have ends {items : List α} {rest : List Char} (closes : Closes rest) :
          Ends ((if items = [] then [] else ',' :: ' ' :: listed (items.map shown)) ++ rest) := by
        split
        · exact closes.ends
        · exact ends_comma _
      obtain ⟨rfl, behind⟩ := each.1 areGood'.1 (ends closes) (ends closes') same
      split at behind <;> split at behind
      · next isLast isLast' =>
          subst isLast isLast'
          exact ⟨rfl, behind⟩
      · exact absurd behind closes.not_more
      · exact absurd behind.symm closes'.not_more
      · obtain ⟨rfl, isRest⟩ := ih each.2 areGood.2 areGood'.2 (by simpa using behind)
        exact ⟨rfl, isRest⟩

end Printing

namespace Ty

open Printing

variable {ty ty' : Ty} {rest rest' : List Char} {field : String × Ty}

/-- The characters of a printed type. -/
def chars (ty : Ty) : List Char := ty.text.toList

def fieldChars (field : String × Ty) : List Char := field.1.toList ++ ':' :: ' ' :: field.2.chars

def declChars (decl : DefId) : List Char := (declName (fun _ => none) decl).toList

theorem renderList_eq_map (nameOf : DefId → Option String) (types : List Ty) :
    renderList nameOf types = types.map (render nameOf) := by
  induction types with
  | nil => rfl
  | cons ty rest ih => rw [renderList, ih, List.map_cons]

theorem renderRow_eq_map (nameOf : DefId → Option String) (fields : List (String × Ty)) :
    renderRow nameOf fields = fields.map fun field => field.1 ++ ": " ++ render nameOf field.2 := by
  induction fields with
  | nil => rfl
  | cons field rest ih => rw [renderRow, ih, List.map_cons]

theorem toList_commaSeparated (texts : List String) :
    (commaSeparated texts).toList = listed (texts.map String.toList) :=
  String.toList_intercalate

theorem chars_renderList (types : List Ty) :
    (commaSeparated (renderList (fun _ => none) types)).toList = listed (types.map chars) := by
  rw [toList_commaSeparated, renderList_eq_map, List.map_map]
  rfl

theorem chars_var (id : VarId) : (var id).chars = '\'' :: '_' :: (toString id).toList := by
  simp [chars, Ty.text, render, varName]

theorem chars_named (decl : DefId) (args : List Ty) :
    (named decl args).chars =
      declChars decl ++ if args = [] then [] else '<' :: (listed (args.map chars) ++ ['>']) := by
  change (if args.isEmpty then declName _ decl
    else declName _ decl ++ "<" ++ commaSeparated (renderList _ args) ++ ">").toList = _
  cases args with
  | nil => exact (List.append_nil _).symm
  | cons arg args =>
    rw [if_neg (by simp), if_neg (by simp), ← chars_renderList]
    simp only [String.toList_append, List.append_assoc]
    rfl

theorem chars_fn (params : List Ty) (result : Ty) :
    (fn params result).chars = '(' :: (listed (params.map chars) ++
      ')' :: ' ' :: '-' :: '>' :: ' ' :: result.chars) := by
  change ("(" ++ commaSeparated (renderList _ params) ++ ") -> " ++ render _ result).toList = _
  rw [← chars_renderList]
  simp only [String.toList_append, List.append_assoc]
  rfl

theorem chars_tuple (elems : List Ty) :
    (tuple elems).chars = '(' :: (listed (elems.map chars) ++
      if elems.length = 1 then [',', ')'] else [')']) := by
  change ("(" ++ commaSeparated (renderList _ elems) ++
    if elems.length = 1 then ",)" else ")").toList = _
  rw [← chars_renderList]
  simp only [String.toList_append, List.append_assoc]
  split <;> rfl

theorem chars_record (fields : List (String × Ty)) :
    (record fields).chars = '#' :: '\x7b' :: (if fields = [] then ['\x7d']
      else ' ' :: (listed (fields.map fieldChars) ++ [' ', '\x7d'])) := by
  change (if fields.isEmpty then "#\x7b\x7d"
    else "#\x7b " ++ commaSeparated (renderRow _ fields) ++ " \x7d").toList = _
  cases fields with
  | nil => rfl
  | cons field fields =>
    rw [if_neg (by simp), if_neg (by simp), renderRow_eq_map]
    simp only [String.toList_append, toList_commaSeparated, List.map_map, Function.comp_def,
      List.append_assoc]
    rfl

theorem numeral_toString (number : Int) :
    (toString number).toList ≠ [] ∧ ∀ c ∈ (toString number).toList, isNumeral c = true := by
  have digits (count : Nat) : ∀ c ∈ (Nat.repr count).toList, isNumeral c = true := by
    intro c member
    rw [Nat.repr_eq_ofList_toDigits, String.toList_ofList] at member
    simp [isNumeral, Nat.isDigit_of_mem_toDigits (by decide) (by decide) member]
  cases number with
  | ofNat count =>
    refine ⟨?_, digits count⟩
    change (Nat.repr count).toList ≠ []
    rw [Nat.repr_eq_ofList_toDigits, String.toList_ofList]
    exact Nat.toDigits_ne_nil
  | negSucc count =>
    have text : (toString (Int.negSucc count)).toList = '-' :: (Nat.repr (count + 1)).toList := by
      change ("-" ++ Nat.repr (count + 1)).toList = _
      rw [String.toList_append]
      rfl
    rw [text]
    refine ⟨List.cons_ne_nil _ _, ?_⟩
    rintro c (_ | ⟨_, member⟩)
    · rfl
    · exact digits _ c member

theorem number_unique {number number' : Int} (stops : Stops isNumeral rest)
    (stops' : Stops isNumeral rest')
    (same : (toString number).toList ++ rest = (toString number').toList ++ rest') :
    number = number' ∧ rest = rest' := by
  obtain ⟨text, isRest⟩ := run_unique (numeral_toString number).2 (numeral_toString number').2
    stops stops' same
  exact ⟨Int.repr_injective (String.toList_inj.mp text), isRest⟩

theorem declChars_eq (decl : DefId) :
    declChars decl = if decl = .list then ['L', 'i', 's', 't']
      else '#' :: (toString decl.number).toList := by
  unfold declChars declName DefId.text
  split
  · rfl
  · simp

theorem decl_unique {decl decl' : DefId} (stops : Stops isNumeral rest)
    (stops' : Stops isNumeral rest') (same : declChars decl ++ rest = declChars decl' ++ rest') :
    decl = decl' ∧ rest = rest' := by
  rw [declChars_eq, declChars_eq] at same
  split at same <;> split at same
  · next isList isList' => exact ⟨isList.trans isList'.symm, List.append_cancel_left same⟩
  · simp at same
  · simp at same
  · obtain ⟨number, isRest⟩ := number_unique stops stops' (List.cons.inj same).2
    cases decl
    cases decl'
    cases number
    exact ⟨rfl, isRest⟩

/-- Labels of letters, digits and underscores. -/
def isLabel (label : String) : Bool := label ≠ "" && label.toList.all isLabelChar

/-- A former with a text of its own. The labels of records are made of letters, digits and
underscores. -/
def isTextual : Ty → Bool
  | .prim (.reserved _) | .absent | .param _ _ | .scheme _ _ | .foreign _ => false
  | .record fields => fields.all fun field => isLabel field.1
  | _ => true

/-- A type is made of formers with texts of their own. -/
abbrev Textual (ty : Ty) : Prop := ty.all isTextual = true

/-- The first character of the text of a primitive type that is known. -/
def primLead : Prim → Char
  | .int => 'I'
  | .float => 'F'
  | .bool => 'B'
  | .char => 'C'
  | .string => 'S'
  | .unit => 'U'
  | .reserved _ => '?'

/-- A character that tells the former of a type. Declared types and records share one. -/
def lead : Ty → Char
  | .prim kind => primLead kind
  | .var _ => '\''
  | .named _ _ | .record _ => '#'
  | .fn _ _ | .tuple _ => '('
  | .unknown => '_'
  | _ => '?'

def leadOf (c : Char) : Char := if c = 'L' then '#' else c

theorem exists_chars (textual : ty.Textual) :
    ∃ c rest, ty.chars = c :: rest ∧ leadOf c = ty.lead := by
  have former := (all_iff.mp textual).1
  cases ty with
  | prim kind =>
    cases kind with
    | reserved offset => cases former
    | _ => exact ⟨_, _, rfl, rfl⟩
  | var id => exact ⟨_, _, chars_var id, rfl⟩
  | named decl args =>
    rw [chars_named, declChars_eq]
    split
    · exact ⟨_, _, rfl, rfl⟩
    · exact ⟨_, _, rfl, rfl⟩
  | fn params result => exact ⟨_, _, chars_fn params result, rfl⟩
  | tuple elems => exact ⟨_, _, chars_tuple elems, rfl⟩
  | record fields => exact ⟨_, _, chars_record fields, rfl⟩
  | unknown => exact ⟨_, _, rfl, rfl⟩
  | _ => cases former

theorem opens_chars (textual : ty.Textual) : Opens ty.chars := by
  obtain ⟨c, rest, text, isLead⟩ := exists_chars textual
  refine ⟨c, rest, text, ?_⟩
  by_contra closer
  simp only [isCloser, Bool.not_eq_false, Bool.or_eq_true, decide_eq_true_eq] at closer
  cases ty with
  | prim kind => cases kind <;> rcases closer with ((rfl | rfl) | rfl) | rfl <;> cases isLead
  | _ => rcases closer with ((rfl | rfl) | rfl) | rfl <;> cases isLead

/-- The field can be read back. -/
def TextualField (field : String × Ty) : Prop := isLabel field.1 = true ∧ field.2.Textual

theorem opens_fieldChars (textual : TextualField field) : Opens (fieldChars field) := by
  have label := textual.1
  simp only [isLabel, Bool.and_eq_true, decide_eq_true_eq, List.all_eq_true] at label
  cases text : field.1.toList with
  | nil => exact absurd (String.toList_eq_nil_iff.mp text) label.1
  | cons c tail =>
    refine ⟨c, tail ++ ':' :: ' ' :: field.2.chars, by rw [fieldChars, text]; rfl, ?_⟩
    have isLabelChar := label.2 c (text ▸ List.mem_cons_self)
    by_contra closer
    simp only [isCloser, Bool.not_eq_false, Bool.or_eq_true, decide_eq_true_eq] at closer
    rcases closer with ((rfl | rfl) | rfl) | rfl <;> cases isLabelChar

theorem lead_eq (textual : ty.Textual) (textual' : ty'.Textual)
    (same : ty.chars ++ rest = ty'.chars ++ rest') : ty'.lead = ty.lead := by
  obtain ⟨c, early, text, isLead⟩ := exists_chars textual
  obtain ⟨c', early', text', isLead'⟩ := exists_chars textual'
  rw [text, text'] at same
  obtain ⟨rfl, _⟩ := List.cons.inj same
  exact isLead'.symm.trans isLead

theorem declChars_ne_record {decl : DefId} : declChars decl ++ rest ≠ '#' :: '\x7b' :: rest' := by
  rw [declChars_eq]
  split
  · simp
  · intro same
    obtain ⟨isNonempty, numerals⟩ := numeral_toString decl.number
    obtain ⟨c, tail, text⟩ := List.exists_cons_of_ne_nil isNonempty
    have isNumeral := numerals c (text ▸ List.mem_cons_self)
    rw [text] at same
    obtain ⟨_, same⟩ := List.cons.inj same
    obtain ⟨rfl, _⟩ := List.cons.inj same
    cases isNumeral

theorem readable_prim (kind : Prim) (textual : (prim kind).Textual) :
    Readable chars Textual (prim kind) := by
  intro ty' rest rest' textual' _ _ same
  have sameLead := lead_eq textual textual' same
  cases kind with
  | reserved offset => cases textual
  | _ =>
    cases ty' with
    | prim kind =>
      cases kind <;> cases sameLead
      exact ⟨rfl, List.append_cancel_left same⟩
    | _ => cases sameLead

theorem readable_unknown : Readable chars Textual unknown := by
  intro ty' rest rest' textual' _ _ same
  have sameLead := lead_eq rfl textual' same
  cases ty' with
  | unknown => exact ⟨rfl, List.append_cancel_left same⟩
  | prim kind => cases kind <;> cases sameLead
  | _ => cases sameLead

theorem readable_var (id : VarId) : Readable chars Textual (var id) := by
  intro ty' rest rest' textual' ends ends' same
  have sameLead := lead_eq rfl textual' same
  cases ty' with
  | var id' =>
    rw [chars_var, chars_var] at same
    obtain ⟨rfl, isRest⟩ := number_unique ends.numeral ends'.numeral
      (List.cons.inj (List.cons.inj same).2).2
    exact ⟨rfl, isRest⟩
  | prim kind => cases kind <;> cases sameLead
  | _ => cases sameLead

theorem types_unique {types types' : List Ty} (each : ∀ ty ∈ types, Readable chars Textual ty)
    (textual : ∀ ty ∈ types, ty.Textual) (textual' : ∀ ty ∈ types', ty.Textual)
    (closes : Closes rest) (closes' : Closes rest')
    (same : listed (types.map chars) ++ rest = listed (types'.map chars) ++ rest') :
    types = types' ∧ rest = rest' :=
  listed_unique (fun _ => opens_chars) each textual textual' closes closes' same

theorem readable_named (decl : DefId) (args : List Ty) (textual : (named decl args).Textual)
    (each : ∀ arg ∈ args, Readable chars Textual arg) :
    Readable chars Textual (named decl args) := by
  intro ty' rest rest' textual' ends ends' same
  have sameLead := lead_eq textual textual' same
  rw [chars_named, List.append_assoc] at same
  cases ty' with
  | named decl' args' =>
    rw [chars_named, List.append_assoc] at same
    -- Behind the name there are arguments or what follows the type, and neither begins with a
    -- digit.
    have stops {args : List Ty} {rest : List Char} (ends : Ends rest) : Stops isNumeral
        ((if args = [] then [] else '<' :: (listed (args.map chars) ++ ['>'])) ++ rest) := by
      split
      · exact ends.numeral
      · rintro _ ⟨⟩
        rfl
    obtain ⟨rfl, behind⟩ := decl_unique (stops ends) (stops ends') same
    split at behind <;> split at behind
    · next isNil isNil' => exact ⟨by rw [isNil, isNil'], behind⟩
    · exact absurd (congrArg List.head? behind) ends.args
    · exact absurd (congrArg List.head? behind).symm ends'.args
    · simp only [List.cons_append, List.append_assoc, List.nil_append, List.cons.injEq,
        true_and] at behind
      obtain ⟨rfl, isRest⟩ := types_unique each (fun arg => all_of_part textual)
        (fun arg => all_of_part textual') (.angle _) (.angle _) behind
      exact ⟨rfl, (List.cons.inj isRest).2⟩
  | record fields =>
    rw [chars_record] at same
    exact absurd same declChars_ne_record
  | prim kind => cases kind <;> cases sameLead
  | _ => cases sameLead

theorem closes_tuple (elems : List Ty) (rest : List Char) :
    Closes ((if elems.length = 1 then [',', ')'] else [')']) ++ rest) := by
  split
  · exact .comma _
  · exact .paren _

theorem tuple_ne_arrow {elems : List Ty} (ends : Ends rest) :
    (if elems.length = 1 then [',', ')'] else [')']) ++ rest ≠ ')' :: ' ' :: '-' :: rest' := by
  intro same
  split at same
  · cases same
  · exact ends.arrow ⟨rest', (List.cons.inj same).2.symm⟩

theorem textual_fn {params : List Ty} {result : Ty} (textual : (fn params result).Textual) :
    (∀ param ∈ params, param.Textual) ∧ result.Textual :=
  ⟨fun _ member => all_of_part textual (List.mem_append_left _ member),
    all_of_part textual (List.mem_append_right _ List.mem_cons_self)⟩

theorem readable_tuple (elems : List Ty) (textual : (tuple elems).Textual)
    (each : ∀ elem ∈ elems, Readable chars Textual elem) :
    Readable chars Textual (tuple elems) := by
  intro ty' rest rest' textual' ends ends' same
  have sameLead := lead_eq textual textual' same
  rw [chars_tuple] at same
  cases ty' with
  | fn params result =>
    rw [chars_fn] at same
    simp only [List.cons_append, List.append_assoc, List.cons.injEq, true_and] at same
    obtain ⟨_, behind⟩ := types_unique each (fun elem => all_of_part textual)
      (textual_fn textual').1 (closes_tuple elems _) (.paren _) same
    exact absurd behind (tuple_ne_arrow ends)
  | tuple elems' =>
    rw [chars_tuple] at same
    simp only [List.cons_append, List.append_assoc, List.cons.injEq, true_and] at same
    obtain ⟨rfl, behind⟩ := types_unique each (fun elem => all_of_part textual)
      (fun elem => all_of_part textual') (closes_tuple elems _) (closes_tuple elems' _) same
    exact ⟨rfl, List.append_cancel_left behind⟩
  | prim kind => cases kind <;> cases sameLead
  | _ => cases sameLead

theorem readable_fn (params : List Ty) (result : Ty) (textual : (fn params result).Textual)
    (each : ∀ param ∈ params, Readable chars Textual param)
    (readable : Readable chars Textual result) : Readable chars Textual (fn params result) := by
  intro ty' rest rest' textual' ends ends' same
  have sameLead := lead_eq textual textual' same
  rw [chars_fn] at same
  cases ty' with
  | fn params' result' =>
    rw [chars_fn] at same
    simp only [List.cons_append, List.append_assoc, List.cons.injEq, true_and] at same
    obtain ⟨rfl, behind⟩ := types_unique each (textual_fn textual).1 (textual_fn textual').1
      (.paren _) (.paren _) same
    simp only [List.cons.injEq, true_and] at behind
    obtain ⟨rfl, isRest⟩ := readable (textual_fn textual').2 ends ends' behind
    exact ⟨rfl, isRest⟩
  | tuple elems =>
    rw [chars_tuple] at same
    simp only [List.cons_append, List.append_assoc, List.cons.injEq, true_and] at same
    obtain ⟨_, behind⟩ := types_unique each (textual_fn textual).1
      (fun elem => all_of_part textual') (.paren _) (closes_tuple elems _) same
    exact absurd behind.symm (tuple_ne_arrow ends')
  | prim kind => cases kind <;> cases sameLead
  | _ => cases sameLead

theorem stops_colon (rest : List Char) : Stops isLabelChar (':' :: rest) := by
  rintro _ ⟨⟩
  rfl

theorem readable_field (textual : TextualField field)
    (readable : Readable chars Textual field.2) : Readable fieldChars TextualField field := by
  intro field' rest rest' textual' ends ends' same
  obtain ⟨label, ty⟩ := field
  obtain ⟨label', ty'⟩ := field'
  have isLabel := textual.1
  have isLabel' := textual'.1
  simp only [Ty.isLabel, Bool.and_eq_true, List.all_eq_true] at isLabel isLabel'
  simp only [fieldChars, List.append_assoc] at same
  obtain ⟨text, behind⟩ := run_unique isLabel.2 isLabel'.2 (stops_colon _) (stops_colon _) same
  obtain rfl := String.toList_inj.mp text
  obtain ⟨rfl, isRest⟩ := readable textual'.2 ends ends'
    ((List.append_right_inj [':', ' ']).mp behind)
  exact ⟨rfl, isRest⟩

theorem textual_field {fields : List (String × Ty)} (textual : (record fields).Textual) :
    ∀ field ∈ fields, TextualField field := by
  intro field member
  obtain ⟨former, each⟩ := all_iff.mp textual
  exact ⟨List.all_eq_true.mp former field member, each _ (List.mem_map_of_mem member)⟩

theorem readable_record (fields : List (String × Ty)) (textual : (record fields).Textual)
    (each : ∀ field ∈ fields, Readable chars Textual field.2) :
    Readable chars Textual (record fields) := by
  intro ty' rest rest' textual' _ _ same
  have sameLead := lead_eq textual textual' same
  rw [chars_record] at same
  cases ty' with
  | named decl args =>
    rw [chars_named, List.append_assoc] at same
    exact absurd same.symm declChars_ne_record
  | record fields' =>
    rw [chars_record] at same
    simp only [List.cons_append, List.cons.injEq, true_and] at same
    split at same <;> split at same
    · next isNil isNil' => exact ⟨by rw [isNil, isNil'], List.append_cancel_left same⟩
    · cases same
    · cases same
    · simp only [List.cons_append, List.append_assoc, List.nil_append, List.cons.injEq,
        true_and] at same
      have areFields := textual_field textual
      obtain ⟨rfl, isRest⟩ := listed_unique (fun _ => opens_fieldChars)
        (fun field member => readable_field (areFields field member) (each field member))
        areFields (textual_field textual') (.brace _) (.brace _) same
      exact ⟨rfl, (List.append_right_inj [' ', '\x7d']).mp isRest⟩
  | prim kind => cases kind <;> cases sameLead
  | _ => cases sameLead

/-- Whatever may follow it, the text of a type tells the type and where it ends. -/
theorem readable_chars (textual : ty.Textual) : Readable chars Textual ty := by
  induction ty using Ty.induction with
  | prim kind => exact readable_prim kind textual
  | var id => exact readable_var id
  | named decl args ih =>
    exact readable_named decl args textual fun arg member =>
      ih arg member (all_of_part textual member)
  | fn params result ihParams ihResult =>
    exact readable_fn params result textual
      (fun param member => ihParams param member ((textual_fn textual).1 param member))
      (ihResult (textual_fn textual).2)
  | tuple elems ih =>
    exact readable_tuple elems textual fun elem member =>
      ih elem member (all_of_part textual member)
  | record fields ih =>
    exact readable_record fields textual fun field member =>
      ih field member (textual_field textual field member).2
  | unknown => exact readable_unknown
  | _ => cases textual

theorem isComplete_of_textual (textual : ty.Textual) : ty.isComplete = true := by
  refine isComplete_of_isPresent (all_of_imp textual fun former isTextual => ?_)
  cases former with
  | absent => cases isTextual
  | _ => rfl

/-- Types that are built from the known primitives, placeholders, variables, declared types,
functions, tuples and records with labels of letters, digits and underscores all have a text, and no
two of them have the same. -/
theorem text?_injective (textual : ty.Textual) (textual' : ty'.Textual) :
    (∃ printed, ty.text? = some printed) ∧ (ty.text? = ty'.text? → ty = ty') := by
  have printed {ty : Ty} (textual : ty.Textual) : ty.text? = some ty.text := by
    rw [text?, complete?, if_pos (isComplete_of_textual textual)]
    rfl
  refine ⟨⟨_, printed textual⟩, fun same => ?_⟩
  rw [printed textual, printed textual', Option.some.injEq] at same
  have sameChars : ty.chars ++ [] = ty'.chars ++ [] := by rw [chars, chars, same]
  exact (readable_chars textual textual' ends_nil ends_nil sameChars).1

/-- A function to a declared type and a function whose result is a record. -/
theorem text?_injective_results :
    let ty : Ty := .fn [.tuple [.int]] (.named ⟨1⟩ [.var (-2), .unknown])
    let ty' : Ty := .fn [.tuple [.int]] (.record [("a_1", .fn [] .unit), ("b", .list .bool)])
    ty.Textual ∧ ty'.Textual ∧ (∃ printed, ty.text? = some printed) ∧
      (ty.text? = ty'.text? → ty = ty') :=
  ⟨by decide, by decide, text?_injective (by decide) (by decide)⟩

end Ty

end TraitCheck
