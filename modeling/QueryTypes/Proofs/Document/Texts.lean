import Mathlib.Data.List.Basic
import QueryTypes.Schema.Rules

/-!
# What the text of a declaration tells

Declarations are compared as texts, in two forms that differ where a field has no arguments. Names
hold only letters, digits and underscores, so each part of a text ends where the next delimiter
begins. From left to right this gives back the whole declaration (`Declaration.eq_of_text_eq`), and
it makes the two forms agree on which declarations are the same.
-/

namespace QueryTypes

/-! ## Names and their delimiters -/

/-- Two lists that start alike up to the first item outside `p` have that start in common. -/
theorem append_inj_of_all {α : Type} {p : α → Bool} {as bs rest rest' : List α}
    (ha : ∀ a ∈ as, p a) (hb : ∀ b ∈ bs, p b) (hr : ∀ a ∈ rest.head?, p a = false)
    (hr' : ∀ a ∈ rest'.head?, p a = false) (h : as ++ rest = bs ++ rest') :
    as = bs ∧ rest = rest' := by
  have htake {as rest : List α} (ha : ∀ a ∈ as, p a) (hr : ∀ a ∈ rest.head?, p a = false) :
      (as ++ rest).takeWhile p = as := by
    rw [List.takeWhile_append_of_pos ha]
    cases rest with
    | nil => simp
    | cons a rest => simp [hr a rfl]
  have has : as = bs := by rw [← htake ha hr, h, htake hb hr']
  subst has
  exact ⟨rfl, List.append_cancel_left h⟩

theorem isNamePart_of_mem {name : String} (h : isName name) {ch : Char} (hch : ch ∈ name.toList) :
    isNamePart ch := by
  unfold isName at h
  split at h
  · cases h
  · rename_i first rest heq
    rw [heq] at hch
    rw [Bool.and_eq_true] at h
    rcases List.mem_cons.1 hch with rfl | hch
    · simp [isNamePart, h.1]
    · exact List.all_eq_true.1 h.2 ch hch

theorem exists_cons_of_isName {name : String} (h : isName name) :
    ∃ first rest, name.toList = first :: rest ∧ isNamePart first := by
  cases hchars : name.toList with
  | nil => simp [isName, hchars] at h
  | cons first rest => exact ⟨first, rest, rfl, isNamePart_of_mem h (by simp [hchars])⟩

theorem not_isNamePart_head {d : Char} (hd : isNamePart d = false) (tail : List Char) :
    ∀ ch ∈ (d :: tail).head?, isNamePart ch = false := by
  rintro _ ⟨⟩
  exact hd

/-- A name ends where something else begins. -/
theorem append_name_inj {a b : String} (ha : isName a) (hb : isName b) {rest rest' : List Char}
    (hr : ∀ ch ∈ rest.head?, isNamePart ch = false)
    (hr' : ∀ ch ∈ rest'.head?, isNamePart ch = false)
    (h : a.toList ++ rest = b.toList ++ rest') : a = b ∧ rest = rest' := by
  obtain ⟨heq, hrest⟩ := append_inj_of_all (fun _ => isNamePart_of_mem ha)
    (fun _ => isNamePart_of_mem hb) hr hr' h
  exact ⟨String.toList_inj.1 heq, hrest⟩

/-! ## Characters of texts -/

/-- The character does not occur in the text. -/
def Lacks (ch : Char) (s : String) : Prop := ch ∉ s.toList

theorem lacks_append {ch : Char} {s t : String} : Lacks ch (s ++ t) ↔ Lacks ch s ∧ Lacks ch t := by
  simp [Lacks]

theorem lacks_of_isName {ch : Char} {name : String} (h : isName name)
    (hch : isNamePart ch = false) : Lacks ch name := by
  intro hmem
  have hpart := isNamePart_of_mem h hmem
  rw [hch] at hpart
  cases hpart

theorem toList_intercalate_cons (separator name : String) (names : List String) :
    (separator.intercalate (name :: names)).toList =
      name.toList ++ (names.map String.toList).flatMap (separator.toList ++ ·) := by
  induction names generalizing name with
  | nil => simp
  | cons next rest ih =>
    rw [String.intercalate_cons_cons, String.toList_append, ih]
    simp

theorem lacks_intercalate {ch : Char} {separator : String} (hseparator : Lacks ch separator)
    {parts : List String} (hparts : ∀ s ∈ parts, Lacks ch s) :
    Lacks ch (separator.intercalate parts) := by
  cases parts with
  | nil => simp [Lacks]
  | cons part parts =>
    obtain ⟨hpart, hparts⟩ := List.forall_mem_cons.1 hparts
    rw [Lacks, toList_intercalate_cons, List.mem_append, not_or]
    refine ⟨hpart, ?_⟩
    intro hmem
    obtain ⟨l, hl, hmem⟩ := List.mem_flatMap.1 hmem
    obtain ⟨s, hs, rfl⟩ := List.mem_map.1 hl
    rcases List.mem_append.1 hmem with hmem | hmem
    · exact hseparator hmem
    · exact hparts s hs hmem

/-! ## Type references -/

namespace TypeRef

/-- Nothing that a type reference could go on with. -/
def Delimits (rest : List Char) : Prop := ∀ ch ∈ rest.head?, isNamePart ch = false ∧ ch ≠ '!'

theorem append_mark_inj {a b : Bool} {rest rest' : List Char} (hr : Delimits rest)
    (hr' : Delimits rest') (h : (mark a).toList ++ rest = (mark b).toList ++ rest') :
    a = b ∧ rest = rest' := by
  cases a <;> cases b
  · exact ⟨rfl, h⟩
  -- where only one of the two is marked, what follows the other begins with the mark
  · change rest = '!' :: rest' at h
    have hhead : '!' ∈ rest.head? := by simp [h]
    exact absurd rfl (hr _ hhead).2
  · change '!' :: rest = rest' at h
    have hhead : '!' ∈ rest'.head? := by simp [← h]
    exact absurd rfl (hr' _ hhead).2
  · exact ⟨rfl, List.append_cancel_left h⟩

theorem head?_mark {required : Bool} {rest : List Char} (hr : Delimits rest) :
    ∀ ch ∈ ((mark required).toList ++ rest).head?, isNamePart ch = false := by
  cases required with
  | false => exact fun ch hch => (hr ch hch).1
  | true =>
    intro ch hch
    cases hch
    decide

theorem toList_text_named (name : String) (required : Bool) :
    (named name required).text.toList = name.toList ++ (mark required).toList := by
  simp [text]

theorem toList_text_list (item : TypeRef) (required : Bool) :
    (list item required).text.toList =
      '[' :: (item.text.toList ++ ']' :: (mark required).toList) := by
  simp [text]

/-- A type reference has no other characters than those of names, brackets and marks. -/
theorem lacks_text {ch : Char} {t : TypeRef} (h : isName t.name) (hch : isNamePart ch = false)
    (hmarks : ch ∉ ['[', ']', '!']) : Lacks ch t.text := by
  simp only [List.mem_cons, List.not_mem_nil, or_false, not_or] at hmarks
  have hmark (required : Bool) : Lacks ch (mark required) := by
    cases required <;> simp [Lacks, mark, hmarks]
  induction t with
  | named name required => exact lacks_append.2 ⟨lacks_of_isName h hch, hmark required⟩
  | list item required ih =>
    have hopen : Lacks ch "[" := by simp [Lacks, hmarks]
    have hclose : Lacks ch "]" := by simp [Lacks, hmarks]
    simp only [text, lacks_append]
    exact ⟨⟨⟨hopen, ih h⟩, hclose⟩, hmark required⟩

/-- A type reference ends where something begins that cannot go on with it. -/
theorem append_text_inj {s t : TypeRef} (hs : isName s.name) (ht : isName t.name)
    {rest rest' : List Char} (hr : Delimits rest) (hr' : Delimits rest')
    (h : s.text.toList ++ rest = t.text.toList ++ rest') : s = t ∧ rest = rest' := by
  induction s generalizing t rest rest' with
  | named a required =>
    change isName a at hs
    cases t with
    | named b required' =>
      change isName b at ht
      rw [toList_text_named, toList_text_named, List.append_assoc, List.append_assoc] at h
      obtain ⟨rfl, hmarks⟩ := append_name_inj hs ht (head?_mark hr) (head?_mark hr') h
      obtain ⟨rfl, rfl⟩ := append_mark_inj hr hr' hmarks
      exact ⟨rfl, rfl⟩
    | list item required' =>
      obtain ⟨first, _, hfirst, hpart⟩ := exists_cons_of_isName hs
      rw [toList_text_named, toList_text_list, hfirst] at h
      have hbracket : first = '[' := (List.cons.inj h).1
      exact absurd hpart (hbracket ▸ by decide)
  | list item required ih =>
    cases t with
    | named b required' =>
      change isName b at ht
      obtain ⟨first, _, hfirst, hpart⟩ := exists_cons_of_isName ht
      rw [toList_text_named, toList_text_list, hfirst] at h
      have hbracket : '[' = first := (List.cons.inj h).1
      exact absurd hpart (hbracket ▸ by decide)
    | list item' required' =>
      change isName item'.name at ht
      rw [toList_text_list, toList_text_list] at h
      have hclose (tail : List Char) : Delimits (']' :: tail) := by
        rintro _ ⟨⟩
        decide
      simp only [List.cons_append, List.append_assoc, List.cons.injEq, true_and] at h
      obtain ⟨rfl, hmarks⟩ := ih hs ht (hclose _) (hclose _) h
      obtain ⟨rfl, rfl⟩ := append_mark_inj hr hr' (List.cons.inj hmarks).2
      exact ⟨rfl, rfl⟩

/-- The text of a type reference gives back the reference. -/
theorem eq_of_text_eq {s t : TypeRef} (hs : isName s.name) (ht : isName t.name)
    (h : s.text = t.text) : s = t := by
  have hend : Delimits [] := by rintro _ ⟨⟩
  exact (append_text_inj hs ht hend hend (by rw [h])).1

end TypeRef

/-! ## Declarations -/

namespace Declaration
variable {d e : Declaration}

/-- The field and its arguments have names that are usable in a query document. -/
structure WellNamed (d : Declaration) : Prop where
  name : isName d.name
  arguments : ∀ a ∈ d.arguments, isName a.1

/-- So have the types that the declaration refers to. -/
structure WellFormed (d : Declaration) : Prop extends WellNamed d where
  argumentTypes : ∀ a ∈ d.arguments, isName a.2.name
  type : isName d.type.name

theorem toList_argumentText (a : String × TypeRef) :
    (argumentText a).toList = a.1.toList ++ ':' :: ' ' :: a.2.text.toList := by
  simp [argumentText]

theorem lacks_argumentText {ch : Char} {a : String × TypeRef} (hname : isName a.1)
    (htype : isName a.2.name) (hch : isNamePart ch = false)
    (hmarks : ch ∉ [':', ' ', '[', ']', '!']) : Lacks ch (argumentText a) := by
  simp only [List.mem_cons, List.not_mem_nil, or_false, not_or] at hmarks
  have hcolon : Lacks ch ": " := by simp [Lacks, hmarks]
  have htext : Lacks ch a.2.text := TypeRef.lacks_text htype hch (by simp [hmarks])
  simp only [argumentText, lacks_append]
  exact ⟨⟨lacks_of_isName hname hch, hcolon⟩, htext⟩

/-- Arguments have no parentheses, for one. -/
theorem WellFormed.lacks_argumentTexts {ch : Char} (h : d.WellFormed) (hch : isNamePart ch = false)
    (hmarks : ch ∉ [',', ':', ' ', '[', ']', '!']) : Lacks ch d.argumentTexts := by
  simp only [List.mem_cons, List.not_mem_nil, or_false, not_or] at hmarks
  refine lacks_intercalate (by simp [Lacks, hmarks]) ?_
  intro s hs
  obtain ⟨a, ha, rfl⟩ := List.mem_map.1 hs
  exact lacks_argumentText (h.arguments a ha) (h.argumentTypes a ha) hch (by simp [hmarks])

theorem append_argumentText_inj {a b : String × TypeRef} (ha : isName a.1) (hb : isName b.1)
    (ha' : isName a.2.name) (hb' : isName b.2.name) {rest rest' : List Char}
    (hr : TypeRef.Delimits rest) (hr' : TypeRef.Delimits rest')
    (h : (argumentText a).toList ++ rest = (argumentText b).toList ++ rest') :
    a = b ∧ rest = rest' := by
  simp only [toList_argumentText, List.append_assoc, List.cons_append] at h
  have hcolon : isNamePart ':' = false := by decide
  obtain ⟨hname, h⟩ := append_name_inj ha hb (not_isNamePart_head hcolon _)
    (not_isNamePart_head hcolon _) h
  simp only [List.cons.injEq, true_and] at h
  obtain ⟨htype, hrest⟩ := TypeRef.append_text_inj ha' hb' hr hr' h
  exact ⟨Prod.ext hname htype, hrest⟩

/-- What stands after an argument: the other arguments, the closing parenthesis, and the rest. -/
def afterArgument : List (String × TypeRef) → List Char → List Char
  | [], rest => ')' :: rest
  | a :: as, rest => ',' :: ' ' :: ((argumentText a).toList ++ afterArgument as rest)

theorem delimits_afterArgument (as : List (String × TypeRef)) (rest : List Char) :
    TypeRef.Delimits (afterArgument as rest) := by
  cases as <;> (rintro _ ⟨⟩; decide)

theorem toList_argumentTexts_append (a : String × TypeRef) (as : List (String × TypeRef))
    (rest : List Char) :
    (", ".intercalate ((a :: as).map argumentText)).toList ++ ')' :: rest =
      (argumentText a).toList ++ afterArgument as rest := by
  induction as generalizing a with
  | nil => simp [afterArgument]
  | cons b as ih =>
    have hcons : (", ".intercalate ((a :: b :: as).map argumentText)).toList =
        (argumentText a).toList ++
          ',' :: ' ' :: (", ".intercalate ((b :: as).map argumentText)).toList := by
      simp
    rw [hcons, List.append_assoc, List.cons_append, List.cons_append, ih b, afterArgument]

theorem afterArgument_inj {as bs : List (String × TypeRef)}
    (ha : ∀ a ∈ as, isName a.1 ∧ isName a.2.name) (hb : ∀ b ∈ bs, isName b.1 ∧ isName b.2.name)
    {rest rest' : List Char} (h : afterArgument as rest = afterArgument bs rest') :
    as = bs ∧ rest = rest' := by
  induction as generalizing bs with
  | nil =>
    cases bs with
    | nil => exact ⟨rfl, (List.cons.inj h).2⟩
    | cons b bs => exact absurd (List.cons.inj h).1 (by decide)
  | cons a as ih =>
    cases bs with
    | nil => exact absurd (List.cons.inj h).1 (by decide)
    | cons b bs =>
      obtain ⟨⟨hname, htype⟩, has⟩ := List.forall_mem_cons.1 ha
      obtain ⟨⟨hname', htype'⟩, hbs⟩ := List.forall_mem_cons.1 hb
      simp only [afterArgument, List.cons.injEq, true_and] at h
      obtain ⟨rfl, hafter⟩ := append_argumentText_inj hname hname' htype htype'
        (delimits_afterArgument as rest) (delimits_afterArgument bs rest') h
      obtain ⟨rfl, hrest⟩ := ih has hbs hafter
      exact ⟨rfl, hrest⟩

/-! ### The two forms -/

/-- The part of a declaration after the name, as documents print it. -/
def tail (d : Declaration) : List Char :=
  match d.arguments with
  | [] => ':' :: ' ' :: d.type.text.toList
  | a :: as =>
    '(' :: ((argumentText a).toList ++ afterArgument as (':' :: ' ' :: d.type.text.toList))

theorem toList_text (d : Declaration) : d.text.toList = d.name.toList ++ d.tail := by
  obtain ⟨name, arguments, type⟩ := d
  cases arguments with
  | nil => simp [text, tail]
  | cons a as =>
    have h := toList_argumentTexts_append a as (':' :: ' ' :: type.text.toList)
    simp [text, tail, argumentTexts, ← h]

theorem delimits_tail (d : Declaration) : ∀ ch ∈ d.tail.head?, isNamePart ch = false := by
  unfold tail
  split <;> exact not_isNamePart_head (by decide) _

theorem signature_eq_text (h : d.arguments ≠ []) : d.signature = d.text := by
  simp [signature, text, h]

theorem toList_signature (d : Declaration) :
    d.signature.toList = d.name.toList ++
      '(' :: (d.argumentTexts.toList ++ ')' :: ':' :: ' ' :: d.type.text.toList) := by
  simp [signature]

/-- Arguments start with a name, so no parenthesis closes right away. -/
theorem argumentTexts_ne_close {a : String × TypeRef} (ha : isName a.1)
    (as : List (String × TypeRef)) (rest rest' : List Char) :
    (", ".intercalate ((a :: as).map argumentText)).toList ++ ')' :: rest ≠ ')' :: rest' := by
  obtain ⟨first, more, hfirst, hpart⟩ := exists_cons_of_isName ha
  rw [toList_argumentTexts_append, toList_argumentText, hfirst]
  intro h
  have hclose : first = ')' := (List.cons.inj h).1
  exact absurd hpart (hclose ▸ by decide)

/-- Fields that are compared alike print alike. -/
theorem text_eq_of_signature_eq (hd : d.WellNamed) (he : e.WellNamed)
    (h : d.signature = e.signature) : d.text = e.text := by
  obtain ⟨name, arguments, type⟩ := d
  obtain ⟨name', arguments', type'⟩ := e
  have hchars := congrArg String.toList h
  rw [toList_signature, toList_signature] at hchars
  have hparen : isNamePart '(' = false := by decide
  obtain ⟨hname, hrest⟩ := append_name_inj hd.name he.name (not_isNamePart_head hparen _)
    (not_isNamePart_head hparen _) hchars
  obtain rfl : name = name' := hname
  replace hrest := (List.cons.inj hrest).2
  cases arguments with
  | nil =>
    cases arguments' with
    | nil =>
      have htype : type.text = type'.text :=
        String.toList_inj.1 (by simpa [argumentTexts] using hrest)
      simp only [text, List.isEmpty_nil, if_true, htype]
    | cons b bs =>
      exact absurd hrest.symm (argumentTexts_ne_close (he.arguments b (by simp)) bs _ _)
  | cons a as =>
    cases arguments' with
    | nil => exact absurd hrest (argumentTexts_ne_close (hd.arguments a (by simp)) as _ _)
    | cons b bs => rwa [← signature_eq_text (by simp), ← signature_eq_text (by simp)]

/-- The text of a declaration gives back the declaration. -/
theorem eq_of_text_eq (hd : d.WellFormed) (he : e.WellFormed) (h : d.text = e.text) : d = e := by
  obtain ⟨name, arguments, type⟩ := d
  obtain ⟨name', arguments', type'⟩ := e
  have hchars := congrArg String.toList h
  rw [toList_text, toList_text] at hchars
  obtain ⟨hname, htail⟩ :=
    append_name_inj hd.name he.name (delimits_tail _) (delimits_tail _) hchars
  obtain rfl : name = name' := hname
  have htype (h : type.text.toList = type'.text.toList) : type = type' :=
    TypeRef.eq_of_text_eq hd.type he.type (String.toList_inj.1 h)
  cases arguments with
  | nil =>
    cases arguments' with
    | nil =>
      simp only [tail, List.cons.injEq, true_and] at htail
      rw [htype htail]
    | cons b bs => exact absurd (List.cons.inj htail).1 (by decide)
  | cons a as =>
    cases arguments' with
    | nil => exact absurd (List.cons.inj htail).1 (by decide)
    | cons b bs =>
      have hafter : afterArgument (a :: as) (':' :: ' ' :: type.text.toList) =
          afterArgument (b :: bs) (':' :: ' ' :: type'.text.toList) :=
        congrArg (',' :: ' ' :: ·) (List.cons.inj htail).2
      obtain ⟨harguments, hrest⟩ := afterArgument_inj
        (fun a ha => ⟨hd.arguments a ha, hd.argumentTypes a ha⟩)
        (fun b hb => ⟨he.arguments b hb, he.argumentTypes b hb⟩) hafter
      simp only [List.cons.injEq, true_and] at hrest
      obtain rfl := htype hrest
      exact congrArg (mk name · type) harguments

end Declaration
end QueryTypes
