import QueryTypes.Proofs.Contents
import QueryTypes.Proofs.Conversion.Agreement
import QueryTypes.Proofs.Conversion.Answers
import QueryTypes.Schema.Basic

/-!
# Chains of conversions

Schemas, output types and fields may be converted time and again. A sight is everything a path of
operations shows, the values inside computations that have not run included, so it can be compared
before and after. After a chain of natural conversions every sight is the sight before with each
computation in it, however deep, converted by each link once and in order.
-/

namespace QueryTypes

variable {S : Signature} {c d : S.Context} {D : Definitions S}

/-! ## Sights -/

/-- What a path of `k` operations shows. Each operation may come to a computation, and what the rest
of the path shows is then the result of that computation. -/
def Sight (E : Effects) (c : E.Context) (ω : Type) : Nat → Type
  | 0 => ω
  | k + 1 => Reached E c (Sight E c ω k)

/-- The sight with the resolutions at every depth converted along a chain. -/
def Sight.along {E : Effects} {c d : E.Context} {ω : Type} (chain : Chain E c d) :
    (k : Nat) → Sight E c ω k → Sight E d ω k
  | 0, w => w
  | k + 1, r => Reached.along chain (Reached.map (Sight.along chain k) r)

/-- Chains that convert every computation alike convert every sight alike. -/
theorem Sight.along_congr {E : Effects} {c d : E.Context} {ω : Type} {first second : Chain E c d}
    (h : ∀ {α : Type} (x : E.Deferred c α), first.convert x = second.convert x) (k : Nat) :
    Sight.along (ω := ω) first k = Sight.along second k := by
  induction k with
  | zero => rfl
  | succ k ih =>
    funext r
    simp only [Sight.along, ih]
    cases Reached.map (Sight.along second k) r with
    | resolution r => cases r with
      | pure a => rfl
      | deferred x => exact congrArg (Reached.resolution <| .deferred ·) (h x)
    | _ => rfl

namespace Bound

/-- What a bound value shows, whatever its context: its view, with what its type declares. -/
def facts (D : Definitions S) (b : Bound S c) : View Contents :=
  b.view.map (OutputShape.contents D)

/-- The facts at the end of a path. -/
def sight (D : Definitions S) :
    (path : List Operation) → Bound S c → Sight S.toEffects c (View Contents) path.length
  | [], b => b.facts D
  | op :: rest, b => Reached.map (sight D rest) (b.step D op)

/-- The value after a chain of conversions. -/
def along (chain : S.Conversions c d) (b : Bound S c) : Bound S d :=
  chain.carry (F := Bound S) convert b

theorem facts_convert (n : S.Conversion c d) (b : Bound S c) : (b.convert n).facts D = b.facts D := by
  rw [facts, view_convert, facts]
  cases b.view <;> simp [View.map]

theorem facts_along (chain : S.Conversions c d) (b : Bound S c) :
    (b.along chain).facts D = b.facts D := by
  induction chain with
  | nil => rfl
  | snoc chain n ih => exact (facts_convert n _).trans ih

/-- Values that agree show the same along every path. -/
theorem Agrees.sight {a b : Bound S c} (h : a.Agrees D b) (path : List Operation) :
    a.sight D path = b.sight D path := by
  cases path with
  | nil => exact congrArg (View.map _) h.view
  | cons op rest => exact congrArg (Reached.map (Bound.sight D rest)) (h.step op)

/-- An operation after a chain comes to what it comes to before, converted along the chain. -/
theorem step_along (hE : S.MapsCompose) (op : Operation) {chain : S.Conversions c d}
    (h : chain.All S.Natural) {β : Type} (f : Bound S d → β) (b : Bound S c) :
    ((b.along chain).step D op).map f = ((b.step D op).map (f ∘ along chain)).along chain := by
  -- for any `f`, because mapping the identity need not leave a computation what it is
  induction chain generalizing β with
  | nil => exact (Reached.along_nil _).symm
  | snoc chain n ih =>
    have hlink : (b.along (chain.snoc n)).step D op =
        (((b.along chain).step D op).map (convert n)).convert n := step_convert D n op _
    calc ((b.along (chain.snoc n)).step D op).map f
        = ((((b.along chain).step D op).map (convert n)).map f).convert n := by
          rw [hlink, Reached.map_convert h.2]
      _ = (((b.along chain).step D op).map (f ∘ convert n)).convert n := by
          rw [Reached.map_map hE]
      _ = (((b.step D op).map (f ∘ convert n ∘ along chain)).along chain).convert n := by
          rw [ih h.1]
          rfl
      _ = ((b.step D op).map (f ∘ along (chain.snoc n))).along (chain.snoc n) :=
          (Reached.along_snoc chain n _).symm

/-- The sight of a value after a chain is its sight before, converted at every depth. -/
theorem sight_along (hE : S.MapsCompose) {chain : S.Conversions c d} (h : chain.All S.Natural)
    (path : List Operation) (b : Bound S c) :
    (b.along chain).sight D path = Sight.along chain path.length (b.sight D path) := by
  induction path generalizing b with
  | nil => exact facts_along chain b
  | cons op rest ih =>
    have hrest : sight D rest ∘ along chain = Sight.along chain rest.length ∘ sight D rest :=
      funext ih
    calc Reached.map (sight D rest) ((b.along chain).step D op)
        = (Reached.map (sight D rest ∘ along chain) (b.step D op)).along chain :=
          step_along hE op h _ b
      _ = (Reached.map (Sight.along chain rest.length)
            (Reached.map (sight D rest) (b.step D op))).along chain := by
          rw [hrest, Reached.map_map hE]

end Bound

/-! ## Where walks start -/

/-- Where a walk starts: with a root value of a schema, a value of an output type, of an object or of
an interface or union, or with a field of a parent value. -/
inductive Origin (S : Signature) (c : S.Context) where
  | schema (schema : Schema S c) (root : S.Value)
  | output (type : OutputType S c) (value : S.Value)
  | object (type : ObjectType S c) (value : S.Value)
  | abstract (type : AbstractType S c) (value : S.Value)
  | field (name : String) (field : Field S c) (parent : S.Value) (args : List (Option Payload))

namespace Origin

/-- The schema, the type or the field in another context. -/
def convert (n : S.Conversion c d) : Origin S c → Origin S d
  | .schema s root => .schema (s.convert n) root
  | .output t v => .output (.converted n t) v
  | .object o v => .object (o.convert n) v
  | .abstract t v => .abstract (t.convert n) v
  | .field name f parent args => .field name (f.convert n) parent args

/-- The schema, the type or the field after a chain of conversions. -/
def along (chain : S.Conversions c d) (o : Origin S c) : Origin S d :=
  chain.carry (F := Origin S) convert o

/-- The bound value, or what the field resolves to. -/
def start (D : Definitions S) : Origin S c → Reached S.toEffects c (Bound S c)
  | .schema s root => .value (.object (s.bind root))
  | .output t v => .value (t.bind v)
  | .object o v => .value (.object (o.bind v))
  | .abstract t v => .value (.abstract (t.bind v))
  | .field name f parent args =>
    .ofOutcome (((Resolver.declared f).resolve D name parent args).mapError .invalidArguments)

/-- What a path from the origin shows. -/
def sight (D : Definitions S) (path : List Operation) (o : Origin S c) :
    Sight S.toEffects c (View Contents) (path.length + 1) :=
  Reached.map (Bound.sight D path) (o.start D)

/-- A converted origin starts with what the origin starts with, converted. -/
theorem start_convert (hE : S.MapsCompose) {n : S.Conversion c d} (hn : S.Natural n)
    (o : Origin S c) : Reached.Same D ((o.convert n).start D)
      (((o.start D).map (Bound.convert n)).convert n) := by
  cases o with
  | schema s root => exact .value (ObjectType.bind_agrees (ObjectType.mirrors_convert s.query) root)
  | output t v => exact .refl _
  | object o v => exact .value (ObjectType.bind_agrees (ObjectType.mirrors_convert o) v)
  | abstract t v => exact .value (AbstractType.bind_agrees (AbstractType.mirrors_convert t) v)
  | field name f parent args =>
    have hfield : (Resolver.declared (f.convert n)).resolve D name parent args = _ :=
      (Resolver.mirrors_declared hE hn f).resolve name parent args
    have hstart : (Origin.field name (f.convert n) parent args).start D =
        ((Origin.start D (.field name f parent args)).map (Bound.convert n)).convert n := by
      simp only [start, hfield, Outcome.map_mapError, Bound.ofOutcome_convertResolution]
    exact hstart ▸ .refl _

/-- What respects agreement takes values that are the same to the same. -/
theorem map_of_same {β : Type} {f : Bound S c → β} (hf : ∀ a b, a.Agrees D b → f a = f b)
    {r r' : Reached S.toEffects c (Bound S c)} (h : Reached.Same D r r') : r.map f = r'.map f := by
  cases h with
  | refl => rfl
  | value hab => exact congrArg Reached.value (hf _ _ hab)

theorem start_along (hE : S.MapsCompose) {chain : S.Conversions c d} (h : chain.All S.Natural)
    {β : Type} {f : Bound S d → β} (hf : ∀ a b, a.Agrees D b → f a = f b) (o : Origin S c) :
    ((o.along chain).start D).map f = ((o.start D).map (f ∘ Bound.along chain)).along chain := by
  induction chain generalizing β with
  | nil => exact (Reached.along_nil _).symm
  | snoc chain n ih =>
    have hlink : ((o.along (chain.snoc n)).start D).map f =
        ((((o.along chain).start D).map (Bound.convert n)).convert n).map f :=
      map_of_same hf (start_convert hE h.2 (o.along chain))
    have hcongr : ∀ x y, x.Agrees D y → (f ∘ Bound.convert n) x = (f ∘ Bound.convert n) y :=
      fun x y hxy => hf _ _ (hxy.convert n)
    calc ((o.along (chain.snoc n)).start D).map f
        = (((o.along chain).start D).map (f ∘ Bound.convert n)).convert n := by
          rw [hlink, Reached.map_convert h.2, Reached.map_map hE]
      _ = (((o.start D).map (f ∘ Bound.convert n ∘ Bound.along chain)).along chain).convert n := by
          rw [ih h.1 hcongr]
          rfl
      _ = ((o.start D).map (f ∘ Bound.along (chain.snoc n))).along (chain.snoc n) :=
          (Reached.along_snoc chain n _).symm

theorem sight_along (hE : S.MapsCompose) {chain : S.Conversions c d} (h : chain.All S.Natural)
    (path : List Operation) (o : Origin S c) :
    (o.along chain).sight D path = Sight.along chain (path.length + 1) (o.sight D path) := by
  have hrest : Bound.sight D path ∘ Bound.along chain =
      Sight.along chain path.length ∘ Bound.sight D path := funext (Bound.sight_along hE h path)
  calc Reached.map (Bound.sight D path) ((o.along chain).start D)
      = (Reached.map (Bound.sight D path ∘ Bound.along chain) (o.start D)).along chain :=
        start_along hE h (fun _ _ hab => hab.sight path) o
    _ = (Reached.map (Sight.along chain path.length)
          (Reached.map (Bound.sight D path) (o.start D))).along chain := by
        rw [hrest, Reached.map_map hE]

/-- Chains that convert every computation alike lead to the same sights. -/
theorem sight_congr (hE : S.MapsCompose) {first second : S.Conversions c d}
    (hf : first.All S.Natural) (hs : second.All S.Natural)
    (h : ∀ {α : Type} (x : S.Deferred c α), first.convert x = second.convert x)
    (path : List Operation) (o : Origin S c) :
    (o.along first).sight D path = (o.along second).sight D path := by
  rw [sight_along hE hf, sight_along hE hs, Sight.along_congr h]

end Origin

/-! ## Identities and compositions -/

namespace Effects
variable {E : Effects} {a b c : E.Context}

/-- The conversion changes no computation. -/
def IsIdentity (E : Effects) {c : E.Context} (n : E.Conversion c c) : Prop :=
  ∀ {α : Type} (x : E.Deferred c α), E.convert n x = x

/-- The conversion does what two others do one after the other. -/
def IsComposition (E : Effects) {a b c : E.Context} (n : E.Conversion a c)
    (first : E.Conversion a b) (second : E.Conversion b c) : Prop :=
  ∀ {α : Type} (x : E.Deferred a α), E.convert n x = E.convert second (E.convert first x)

theorem IsIdentity.natural {n : E.Conversion c c} (h : E.IsIdentity n) : E.Natural n :=
  fun f x => by rw [h, h]

theorem IsComposition.natural {n : E.Conversion a c} {first : E.Conversion a b}
    {second : E.Conversion b c} (h : E.IsComposition n first second) (hf : E.Natural first)
    (hs : E.Natural second) : E.Natural n :=
  fun f x => by rw [h, h, hf, hs]

end Effects

/-- An identity anywhere in a chain changes no sight. -/
theorem Origin.sight_identity (hE : S.MapsCompose) {b : S.Context} {before : S.Conversions c b}
    {after : S.Conversions b d} (hb : before.All S.Natural) (ha : after.All S.Natural)
    {i : S.Conversion b b} (hi : S.IsIdentity i) (path : List Operation) (o : Origin S c) :
    (o.along ((before.snoc i).append after)).sight D path =
      (o.along (before.append after)).sight D path := by
  have hbefore : (before.snoc i).All S.Natural := ⟨hb, hi.natural⟩
  refine sight_congr hE (Chain.all_append hbefore ha) (Chain.all_append hb ha) (fun x => ?_) path o
  have hlink : (before.snoc i).convert x = before.convert x := hi _
  rw [Chain.convert_append, Chain.convert_append, hlink]

/-- Two conversions anywhere in a chain may be replaced by their composition. -/
theorem Origin.sight_composition (hE : S.MapsCompose) {a b e : S.Context}
    {before : S.Conversions c a} {after : S.Conversions e d} (hb : before.All S.Natural)
    (ha : after.All S.Natural) {first : S.Conversion a b} {second : S.Conversion b e}
    (hf : S.Natural first) (hs : S.Natural second) {n : S.Conversion a e}
    (hn : S.IsComposition n first second) (path : List Operation) (o : Origin S c) :
    (o.along (((before.snoc first).snoc second).append after)).sight D path =
      (o.along ((before.snoc n).append after)).sight D path := by
  have htwo : ((before.snoc first).snoc second).All S.Natural := ⟨⟨hb, hf⟩, hs⟩
  have hone : (before.snoc n).All S.Natural := ⟨hb, hn.natural hf hs⟩
  refine sight_congr hE (Chain.all_append htwo ha) (Chain.all_append hone ha) (fun x => ?_) path o
  have hlink : ((before.snoc first).snoc second).convert x = (before.snoc n).convert x :=
    (hn _).symm
  rw [Chain.convert_append, Chain.convert_append, hlink]

/-! ## Schemas run to the end -/

theorem Schema.answers_along {R : Runner S.toEffects} {chain : S.Conversions c d}
    (h : chain.All R.Preserves) (schema : Schema S c) (root : S.Value) (selected : List Selection) :
    Selection.answers D R.run selected ((chain.carry Schema.convert schema).bind root) =
      Selection.answers D R.run selected (schema.bind root) := by
  induction chain with
  | nil => rfl
  | snoc chain n ih =>
    have hagrees : (Bound.object ((chain.snoc n).carry Schema.convert schema |>.bind root)).Agrees D
        (.object (((chain.carry Schema.convert schema).bind root).convert n)) :=
      ObjectType.bind_agrees (ObjectType.mirrors_convert _) root
    rw [Selection.answers_of_agrees R hagrees, Selection.answers_convert h.2, ih h.1]

/-- A field after a chain gives the resolutions of the field, converted along the chain. -/
theorem Field.resolve_along (chain : S.Conversions c d) (f : Field S c) (name : String)
    (parent : S.Value) (args : List (Option Payload)) :
    (chain.carry Field.convert f).resolve D name parent args =
      Resolution.along chain <$> f.resolve D name parent args := by
  induction chain with
  | nil =>
    have hnil : Resolution.along (α := S.Value) (Chain.nil : S.Conversions c c) = id :=
      funext Resolution.along_nil
    rw [hnil, id_map]
    rfl
  | snoc chain n ih =>
    have hlink : ((chain.snoc n).carry Field.convert f).resolve D name parent args =
        Resolution.convert n <$> (chain.carry Field.convert f).resolve D name parent args :=
      Field.resolve_convert n _ name parent args
    rw [hlink, ih]
    cases f.resolve D name parent args <;> simp [Resolution.along_snoc]

/-- Whatever has been converted along a chain of natural conversions shows along every path what it
showed before, with each computation on the way converted by every link once and in order, and with
values at hand and errors as they were. So identities change nothing, two conversions may be replaced
by their composition, and where conversions preserve what computations give, every selection has the
answer it had. -/
theorem converted_along_chain (hE : S.MapsCompose) (D : Definitions S) :
    (∀ {c d : S.Context} (chain : S.Conversions c d), chain.All S.Natural →
      ∀ (o : Origin S c) (path : List Operation),
        (o.along chain).sight D path = Sight.along chain (path.length + 1) (o.sight D path)) ∧
    (∀ {c d : S.Context} (chain : S.Conversions c d) (f : Field S c) name parent args,
      (chain.carry Field.convert f).resolve D name parent args =
        Resolution.along chain <$> f.resolve D name parent args) ∧
    (∀ {c b d : S.Context} (before : S.Conversions c b) (after : S.Conversions b d)
      (i : S.Conversion b b), before.All S.Natural → after.All S.Natural → S.IsIdentity i →
      ∀ (o : Origin S c) (path : List Operation),
        (o.along ((before.snoc i).append after)).sight D path =
          (o.along (before.append after)).sight D path) ∧
    (∀ {c a b e d : S.Context} (before : S.Conversions c a) (first : S.Conversion a b)
      (second : S.Conversion b e) (n : S.Conversion a e) (after : S.Conversions e d),
      before.All S.Natural → S.Natural first → S.Natural second → after.All S.Natural →
      S.IsComposition n first second → ∀ (o : Origin S c) (path : List Operation),
        (o.along (((before.snoc first).snoc second).append after)).sight D path =
          (o.along ((before.snoc n).append after)).sight D path) ∧
    (∀ (R : Runner S.toEffects) {c d : S.Context} (chain : S.Conversions c d),
      chain.All R.Preserves → ∀ (schema : Schema S c) (root : S.Value) (selected : List Selection),
        Selection.answers D R.run selected ((chain.carry Schema.convert schema).bind root) =
          Selection.answers D R.run selected (schema.bind root)) :=
  ⟨fun _ h o path => Origin.sight_along hE h path o, Field.resolve_along,
    fun _ _ _ hb ha hi o path => Origin.sight_identity hE hb ha hi path o,
    fun _ _ _ _ _ hb hf hs ha hn o path => Origin.sight_composition hE hb ha hf hs hn path o,
    fun _ _ _ _ h schema root selected => Schema.answers_along h schema root selected⟩

namespace JsonHost

/-- Keeps a log of a computation, then adds a line to it. -/
def loggedTwice : (host 0 1).Conversions Context.thunk Context.log :=
  (Chain.nil.snoc Conversion.log).snoc (Conversion.tag "again")

/-- The name of a user is looked up and then logged twice, in order, which changes no answer. -/
theorem user_name_logged :
    ((Origin.output user.output (.string "Ada")).along loggedTwice).sight texts
        [.resolve "name" []] =
      Reached.value (Reached.resolution (.deferred
        (⟨.leaf (.string "Ada"), ["log", "again"]⟩ : Logged (View Contents)))) ∧
    ∀ (schema : Schema (host 0 1) Context.thunk) (root : Json) (selected : List Selection),
      Selection.answers texts runner.run selected
          ((loggedTwice.carry Schema.convert schema).bind root) =
        Selection.answers texts runner.run selected (schema.bind root) :=
  ⟨(converted_along_chain mapsCompose texts).1 _ (Chain.all_of_forall natural _) _ _,
    (converted_along_chain mapsCompose texts).2.2.2.2 runner _
      (Chain.all_of_forall runner_preserves _)⟩

end JsonHost
end QueryTypes
