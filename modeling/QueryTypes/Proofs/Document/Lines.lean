import QueryTypes.Proofs.Document.Blocks

/-!
# Reading documents back

The text of a document gives back the document, if all that it names has a usable name
(`Document.eq_of_text_eq`). Lines end at the line breaks and blocks at the empty lines, and in a
line each part ends where the next delimiter begins, for names and type references hold no
delimiters.
-/

namespace QueryTypes

/-! ## Parts and separators -/

/-- Parts with separators between them are told apart, if separators start with what no part has. -/
theorem separated_inj {α : Type} {p : α → Bool} {d : α} (hd : p d = false) {separator : List α}
    {part part' : List α} {parts parts' : List (List α)}
    (hparts : ∀ l ∈ part :: parts, ∀ a ∈ l, p a) (hparts' : ∀ l ∈ part' :: parts', ∀ a ∈ l, p a)
    (h : part ++ parts.flatMap (d :: separator ++ ·) =
      part' ++ parts'.flatMap (d :: separator ++ ·)) :
    part = part' ∧ parts = parts' := by
  have hhead (ls : List (List α)) :
      ∀ a ∈ (ls.flatMap (d :: separator ++ ·)).head?, p a = false := by
    intro a ha
    cases ls with
    | nil => cases ha
    | cons l ls =>
      cases ha
      exact hd
  induction parts generalizing part part' parts' with
  | nil =>
    obtain ⟨hpart, hrest⟩ := append_inj_of_all (hparts part List.mem_cons_self)
      (hparts' part' List.mem_cons_self) (hhead _) (hhead _) h
    cases parts' with
    | nil => exact ⟨hpart, rfl⟩
    | cons l ls => cases hrest
  | cons next rest ih =>
    obtain ⟨hpart, hrest⟩ := append_inj_of_all (hparts part List.mem_cons_self)
      (hparts' part' List.mem_cons_self) (hhead _) (hhead _) h
    cases parts' with
    | nil => cases hrest
    | cons next' rest' =>
      simp only [List.flatMap_cons, List.append_assoc, List.cons_append, List.cons.injEq,
        true_and] at hrest
      obtain ⟨hnext, hrest⟩ := ih (fun l hl => hparts l (List.mem_cons_of_mem _ hl))
        (fun l hl => hparts' l (List.mem_cons_of_mem _ hl)) (List.append_cancel_left hrest)
      exact ⟨hpart, by rw [hnext, hrest]⟩

/-- Parts that are each ended by what no part has are told apart. -/
theorem ended_inj {α : Type} {p : α → Bool} {d : α} (hd : p d = false)
    {parts parts' : List (List α)} (hparts : ∀ l ∈ parts, ∀ a ∈ l, p a)
    (hparts' : ∀ l ∈ parts', ∀ a ∈ l, p a)
    (h : parts.flatMap (· ++ [d]) = parts'.flatMap (· ++ [d])) : parts = parts' := by
  have hend (rest : List α) : ∀ a ∈ (d :: rest).head?, p a = false := by
    rintro _ ⟨⟩
    exact hd
  induction parts generalizing parts' with
  | nil =>
    cases parts' with
    | nil => rfl
    | cons l ls => simp at h
  | cons part rest ih =>
    cases parts' with
    | nil => simp at h
    | cons part' rest' =>
      simp only [List.flatMap_cons, List.append_assoc, List.singleton_append] at h
      obtain ⟨hpart, hrest⟩ := List.forall_mem_cons.1 hparts
      obtain ⟨hpart', hrest'⟩ := List.forall_mem_cons.1 hparts'
      obtain ⟨rfl, htail⟩ := append_inj_of_all hpart hpart' (hend _) (hend _) h
      rw [ih hrest hrest' (List.cons.inj htail).2]

/-- A list of names is told by its text, if the separator starts with what is in no name. -/
theorem intercalate_names_inj {separator : String} {d : Char} {rest : List Char}
    (hseparator : separator.toList = d :: rest) (hd : isNamePart d = false)
    {names names' : List String} (hnames : ∀ n ∈ names, isName n) (hnames' : ∀ n ∈ names', isName n)
    (h : separator.intercalate names = separator.intercalate names') : names = names' := by
  have hne {name : String} (hname : isName name) (more : List String) :
      separator.intercalate (name :: more) ≠ "" := by
    obtain ⟨first, tail, hfirst, -⟩ := exists_cons_of_isName hname
    intro hempty
    have hchars := congrArg String.toList hempty
    rw [toList_intercalate_cons, hfirst] at hchars
    cases hchars
  have hparts {names : List String} (hnames : ∀ n ∈ names, isName n) :
      ∀ l ∈ names.map String.toList, ∀ ch ∈ l, isNamePart ch := by
    intro l hl ch hch
    obtain ⟨n, hn, rfl⟩ := List.mem_map.1 hl
    exact isNamePart_of_mem (hnames n hn) hch
  cases names with
  | nil =>
    cases names' with
    | nil => rfl
    | cons name' more' => exact absurd h.symm (hne (hnames' name' List.mem_cons_self) more')
  | cons name more =>
    cases names' with
    | nil => exact absurd h (hne (hnames name List.mem_cons_self) more)
    | cons name' more' =>
      have hchars := congrArg String.toList h
      rw [toList_intercalate_cons, toList_intercalate_cons, hseparator] at hchars
      obtain ⟨hname, hmore⟩ := separated_inj hd (hparts hnames) (hparts hnames') hchars
      have hnames : more = more' := (List.map_inj_right fun _ _ => String.toList_inj.1).1 hmore
      rw [String.toList_inj.1 hname, hnames]

/-- A map is undone on lists where it tells their members apart. -/
theorem eq_of_map_eq {α β : Type} {f : α → β} {as bs : List α}
    (hf : ∀ a ∈ as, ∀ b ∈ bs, f a = f b → a = b) (h : as.map f = bs.map f) : as = bs := by
  induction as generalizing bs with
  | nil =>
    cases bs with
    | nil => rfl
    | cons b bs => cases h
  | cons a as ih =>
    cases bs with
    | nil => cases h
    | cons b bs =>
      obtain ⟨hhead, htail⟩ := List.cons.inj h
      have hrest := ih
        (fun a ha b hb => hf a (List.mem_cons_of_mem _ ha) b (List.mem_cons_of_mem _ hb)) htail
      rw [hf a List.mem_cons_self b List.mem_cons_self hhead, hrest]

/-! ## Single lines -/

/-- There is no line break in the text. -/
def SingleLine (s : String) : Prop := '\n' ∉ s.toList

instance (s : String) : Decidable (SingleLine s) := inferInstanceAs (Decidable ('\n' ∉ s.toList))

@[simp] theorem singleLine_append {s t : String} :
    SingleLine (s ++ t) ↔ SingleLine s ∧ SingleLine t :=
  lacks_append

theorem singleLine_of_isName {name : String} (h : isName name) : SingleLine name :=
  lacks_of_isName h (by decide)

theorem Declaration.singleLine_text {d : Declaration} (h : d.WellFormed) : SingleLine d.text := by
  have hname := singleLine_of_isName h.name
  have htype : SingleLine d.type.text := TypeRef.lacks_text h.type (by decide) (by decide)
  have hcolon : SingleLine ": " := by decide
  have harguments : SingleLine d.argumentTexts := h.lacks_argumentTexts (by decide) (by decide)
  have hopen : SingleLine "(" := by decide
  have hclose : SingleLine "): " := by decide
  unfold text
  split <;> simp [*]

/-! ## Blocks -/

theorem TypeKind.isName_word (kind : TypeKind) : isName kind.word := by
  cases kind <;> decide

theorem TypeKind.word_injective : Function.Injective word := by
  intro a b h
  cases a <;> cases b <;> first | rfl | exact absurd h (by decide)

namespace Block
variable {b e : Block}

/-- The interfaces that an object type implements. -/
def interfaces : Block → List String
  | .object _ interfaces _ => interfaces
  | _ => []

/-- All that a block names has a usable name. -/
structure WellFormed (b : Block) : Prop where
  name : isName b.name
  fields : ∀ d ∈ b.fields, d.WellFormed
  values : ∀ v ∈ b.values, isName v
  members : ∀ m ∈ b.members, isName m
  interfaces : ∀ i ∈ b.interfaces, isName i

/-- The part of the first line after the name. -/
def afterName (b : Block) : String :=
  match b.kind with
  | .scalar => ""
  | .union => " = " ++ " | ".intercalate b.members
  | _ => implementsText b.interfaces ++ " \x7b"

/-- The lines after the first one. -/
def body (b : Block) : List String :=
  match b.kind with
  | .scalar | .union => []
  | _ => (b.values ++ b.fields.map Declaration.text).map ("  " ++ ·) ++ ["\x7d"]

theorem lines_eq (b : Block) :
    b.lines = (b.kind.word ++ (" " ++ (b.name ++ b.afterName))) :: b.body := by
  cases b with
  | input name fields =>
    -- without arguments a field prints like an argument
    have htext (f : String × TypeRef) :
        Declaration.text ⟨f.1, [], f.2⟩ = Declaration.argumentText f := rfl
    simp [lines, bodyLines, kind, TypeKind.word, Block.name, afterName, interfaces, implementsText,
      body, values, Block.fields, htext, ← String.append_assoc]
  | _ =>
    simp [lines, bodyLines, kind, TypeKind.word, name, afterName, interfaces, implementsText, body,
      values, fields, members, ← String.append_assoc]

/-- A name in the first line ends before a blank, or at the end of the line. -/
theorem delimits_afterName (b : Block) :
    ∀ ch ∈ b.afterName.toList.head?, isNamePart ch = false := by
  have hblank (rest : List Char) : ∀ ch ∈ (' ' :: rest).head?, isNamePart ch = false :=
    not_isNamePart_head (by decide) rest
  cases b with
  | scalar name => nofun
  | object name interfaces fields =>
    by_cases hnone : interfaces = []
    · simpa [afterName, kind, Block.interfaces, implementsText, hnone] using hblank ['\x7b']
    · simpa [afterName, kind, Block.interfaces, implementsText, hnone] using hblank []
  | union name members => simpa [afterName, kind] using hblank []
  | _ => simpa [afterName, kind, interfaces, implementsText] using hblank ['\x7b']

/-- The first line tells the kind, the name, and what stands after the name. -/
theorem first_line_inj (hb : isName b.name) (he : isName e.name)
    (h : b.kind.word ++ (" " ++ (b.name ++ b.afterName)) =
      e.kind.word ++ (" " ++ (e.name ++ e.afterName))) :
    b.kind = e.kind ∧ b.name = e.name ∧ b.afterName = e.afterName := by
  have hchars := congrArg String.toList h
  simp only [String.toList_append] at hchars
  have hblank (rest : List Char) : ∀ ch ∈ (" ".toList ++ rest).head?, isNamePart ch = false :=
    not_isNamePart_head (by decide) rest
  obtain ⟨hword, hrest⟩ := append_name_inj b.kind.isName_word e.kind.isName_word (hblank _)
    (hblank _) hchars
  obtain ⟨hname, hafter⟩ := append_name_inj hb he b.delimits_afterName e.delimits_afterName
    (List.append_cancel_left hrest)
  exact ⟨TypeKind.word_injective hword, hname, String.toList_inj.1 hafter⟩

theorem implementsText_inj {interfaces interfaces' : List String}
    (hnames : ∀ i ∈ interfaces, isName i) (hnames' : ∀ i ∈ interfaces', isName i)
    (h : implementsText interfaces = implementsText interfaces') : interfaces = interfaces' := by
  have hne {more : List String} (hmore : more ≠ []) : implementsText more ≠ "" := by
    simp [implementsText, hmore]
  by_cases hnone : interfaces = []
  · by_cases hnone' : interfaces' = []
    · rw [hnone, hnone']
    · exact absurd (h.symm.trans (by rw [hnone]; rfl)) (hne hnone')
  · by_cases hnone' : interfaces' = []
    · exact absurd (h.trans (by rw [hnone']; rfl)) (hne hnone)
    · simp only [implementsText, List.isEmpty_iff, hnone, hnone', if_false] at h
      exact intercalate_names_inj rfl (by decide) hnames hnames' (String.append_right_inj _ |>.1 h)

/-- The lines of a block give back the block. -/
theorem eq_of_lines_eq (hb : b.WellFormed) (he : e.WellFormed) (h : b.lines = e.lines) : b = e := by
  rw [lines_eq, lines_eq] at h
  obtain ⟨hfirst, hbody⟩ := List.cons.inj h
  obtain ⟨hkind, hname, hafter⟩ := first_line_inj hb.name he.name hfirst
  -- the lines in braces are those of values or fields, and fields are told by their texts
  have hentries {lines lines' : List String}
      (h : lines.map ("  " ++ ·) ++ ["\x7d"] = lines'.map ("  " ++ ·) ++ ["\x7d"]) :
      lines = lines' := by
    refine (List.map_inj_right ?_).1 (List.append_cancel_right h)
    intro s t hindented
    simpa using hindented
  have hfields {fields fields' : List Declaration} (hwf : ∀ d ∈ fields, d.WellFormed)
      (hwf' : ∀ d ∈ fields', d.WellFormed)
      (h : fields.map Declaration.text = fields'.map Declaration.text) : fields = fields' :=
    eq_of_map_eq (fun d hd d' hd' => Declaration.eq_of_text_eq (hwf d hd) (hwf' d' hd')) h
  cases b with
  | scalar name =>
    cases e <;> cases hkind
    exact congrArg scalar hname
  | enumeration name values =>
    cases e <;> cases hkind
    have hvalues := hentries hbody
    simp only [Block.values, Block.fields, List.map_nil, List.append_nil] at hvalues
    exact congrArg₂ enumeration hname hvalues
  | input name fields =>
    cases e <;> cases hkind
    have hsame := hfields hb.fields he.fields (hentries hbody)
    refine congrArg₂ input hname ((List.map_inj_right ?_).1 hsame)
    rintro ⟨_, _⟩ ⟨_, _⟩ ⟨⟩
    rfl
  | interface name fields =>
    cases e <;> cases hkind
    exact congrArg₂ interface hname (hfields hb.fields he.fields (hentries hbody))
  | object name interfaces fields =>
    cases e with
    | object name' interfaces' fields' =>
      obtain rfl : name = name' := hname
      have hlisted : implementsText interfaces ++ " \x7b" = implementsText interfaces' ++ " \x7b" :=
        hafter
      have hinterfaces : interfaces = interfaces' :=
        implementsText_inj hb.interfaces he.interfaces (by simpa using hlisted)
      have hsame : fields = fields' := hfields hb.fields he.fields (hentries hbody)
      rw [hinterfaces, hsame]
    | _ => cases hkind
  | union name members =>
    cases e with
    | union name' members' =>
      have hlisted : " = " ++ " | ".intercalate members = " = " ++ " | ".intercalate members' :=
        hafter
      have hmembers : members = members' :=
        intercalate_names_inj (d := ' ') rfl (by decide) hb.members he.members
          (by simpa using hlisted)
      exact congrArg₂ union hname hmembers
    | _ => cases hkind

/-- Between the braces stand the values of an enum or the fields. -/
theorem mem_body {line : String} (h : line ∈ b.body) :
    line = "\x7d" ∨ ∃ s ∈ b.values ++ b.fields.map Declaration.text, line = "  " ++ s := by
  unfold body at h
  split at h
  · cases h
  · cases h
  · rcases List.mem_append.1 h with h | h
    · obtain ⟨s, hs, rfl⟩ := List.mem_map.1 h
      exact .inr ⟨s, hs, rfl⟩
    · exact .inl (List.mem_singleton.1 h)

theorem ne_empty_of_mem_lines {line : String} (h : line ∈ b.lines) : line ≠ "" := by
  rw [lines_eq] at h
  rcases List.mem_cons.1 h with rfl | h
  · simp
  · rcases mem_body h with rfl | ⟨s, -, rfl⟩ <;> simp

theorem singleLine_afterName (hb : b.WellFormed) : SingleLine b.afterName := by
  have hlist {separator : String} {names : List String} (hseparator : SingleLine separator)
      (hnames : ∀ n ∈ names, isName n) : SingleLine (separator.intercalate names) :=
    lacks_intercalate hseparator fun n hn => singleLine_of_isName (hnames n hn)
  cases b with
  | scalar name => exact (by decide : SingleLine "")
  | union name members => exact singleLine_append.2 ⟨by decide, hlist (by decide) hb.members⟩
  | object name interfaces fields =>
    refine singleLine_append.2 ⟨?_, by decide⟩
    unfold implementsText
    split
    · decide
    · exact singleLine_append.2 ⟨by decide, hlist (by decide) hb.interfaces⟩
  | _ => exact (by decide : SingleLine ("" ++ " \x7b"))

theorem singleLine_of_mem_lines (hb : b.WellFormed) {line : String} (h : line ∈ b.lines) :
    SingleLine line := by
  rw [lines_eq] at h
  rcases List.mem_cons.1 h with rfl | h
  · have hword := singleLine_of_isName b.kind.isName_word
    have hblank : SingleLine " " := by decide
    have hname := singleLine_of_isName hb.name
    simp [hword, hblank, hname, singleLine_afterName hb]
  · rcases mem_body h with rfl | ⟨s, hs, rfl⟩
    · decide
    · refine singleLine_append.2 ⟨by decide, ?_⟩
      rcases List.mem_append.1 hs with hs | hs
      · exact singleLine_of_isName (hb.values s hs)
      · obtain ⟨d, hd, rfl⟩ := List.mem_map.1 hs
        exact Declaration.singleLine_text (hb.fields d hd)

end Block

/-! ## Documents -/

theorem mem_bodyLines {head line : String} {body : List String} : line ∈ bodyLines head body ↔
    line = head ++ " \x7b" ∨ (∃ s ∈ body, line = "  " ++ s) ∨ line = "\x7d" := by
  simp [bodyLines, eq_comm]

namespace Document
variable {d e : Document}

/-- The query type and all that the blocks name have usable names. -/
structure WellFormed (d : Document) : Prop where
  query : isName d.query
  blocks : ∀ b ∈ d.blocks, b.WellFormed

theorem singleLine_of_mem_lines (hd : d.WellFormed) {line : String} (hline : line ∈ d.lines) :
    SingleLine line := by
  rcases List.mem_append.1 hline with hline | hline
  · rcases mem_bodyLines.1 hline with rfl | ⟨s, hs, rfl⟩ | rfl
    · decide
    · rw [List.mem_singleton.1 hs]
      simp only [singleLine_append]
      exact ⟨by decide, by decide, singleLine_of_isName hd.query⟩
    · decide
  · obtain ⟨b, hb, hline⟩ := List.mem_flatMap.1 hline
    rcases List.mem_cons.1 hline with rfl | hline
    · decide
    · exact Block.singleLine_of_mem_lines (hd.blocks b hb) hline

theorem toList_text (d : Document) :
    d.text.toList = (d.lines.map String.toList).flatMap (· ++ ['\n']) := by
  simp [text, String.toList_join, List.flatMap_map]

/-- The text of a document gives back its lines. -/
theorem lines_eq_of_text_eq (hd : d.WellFormed) (he : e.WellFormed) (h : d.text = e.text) :
    d.lines = e.lines := by
  have hlines {d : Document} (hd : d.WellFormed) :
      ∀ l ∈ d.lines.map String.toList, ∀ ch ∈ l, (ch != '\n') = true := by
    intro l hl ch hch
    obtain ⟨line, hline, rfl⟩ := List.mem_map.1 hl
    rw [bne_iff_ne]
    rintro rfl
    exact singleLine_of_mem_lines hd hline hch
  have hchars := congrArg String.toList h
  rw [toList_text, toList_text] at hchars
  have hsame := ended_inj (by decide) (hlines hd) (hlines he) hchars
  exact (List.map_inj_right fun _ _ => String.toList_inj.1).1 hsame

/-- The lines of a document give back the document, for an empty line starts each block. -/
theorem eq_of_lines_eq (hd : d.WellFormed) (he : e.WellFormed) (h : d.lines = e.lines) : d = e := by
  have hparts (d : Document) : ∀ part ∈ bodyLines "schema" ["query: " ++ d.query] ::
      d.blocks.map Block.lines, ∀ line ∈ part, (line != "") = true := by
    intro part hpart line hline
    rw [bne_iff_ne]
    rcases List.mem_cons.1 hpart with rfl | hpart
    · rcases mem_bodyLines.1 hline with rfl | ⟨s, -, rfl⟩ | rfl <;> simp
    · obtain ⟨b, -, rfl⟩ := List.mem_map.1 hpart
      exact Block.ne_empty_of_mem_lines hline
  have hlines (d : Document) : d.lines = bodyLines "schema" ["query: " ++ d.query] ++
      (d.blocks.map Block.lines).flatMap ("" :: [] ++ ·) := by
    simp [lines, List.flatMap_map]
  rw [hlines, hlines] at h
  obtain ⟨hhead, hblocks⟩ := separated_inj (by decide) (hparts d) (hparts e) h
  have hquery : d.query = e.query := by simpa [bodyLines] using hhead
  have hsame : d.blocks = e.blocks :=
    eq_of_map_eq (fun b hb b' hb' => Block.eq_of_lines_eq (hd.blocks b hb) (he.blocks b' hb'))
      hblocks
  cases d
  cases e
  exact congrArg₂ mk hquery hsame

/-- The text of a document gives back the document. -/
theorem eq_of_text_eq (hd : d.WellFormed) (he : e.WellFormed) (h : d.text = e.text) : d = e :=
  eq_of_lines_eq hd he (lines_eq_of_text_eq hd he h)

end Document

end QueryTypes
