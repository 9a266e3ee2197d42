import Solo.Proofs.Sessions

/-!
# Numbers of entries

Whatever a unit is asked, and in whatever order, the numbers of its texts, literals and types are
exact: equal entries have one number, and a number leads to its entry for ever. So types can be
compared by their numbers.
-/

namespace Solo

/-! ### Requests -/

/-- What a unit is asked for. -/
inductive Request where
  /-- The number of a text. -/
  | text (s : String)
  /-- The number of a literal. -/
  | literal (v : Literal)
  /-- The number of the singleton of a literal. -/
  | literalType (v : Literal)
  /-- The number of the singleton of a binding. -/
  | pathType (x : SymbolId)
  | question (q : Question)
  | diagnostics
  /-- Folding and a run. -/
  | evaluate

/-- The number of a text, which is entered if it is new. -/
def Check.atom (s : String) : Check Nat :=
  modifyGet fun c => ((c.names.enter s).1, { c with names := (c.names.enter s).2 })

namespace Context

variable (cx : Context)

/-- Folds and runs the program with what its checker has found. -/
def evaluate : Check Unit := fun c => do
  let e ← Checked.evaluate ⟨cx, c, []⟩
  return ((), e.checker)

/-- Serves a request; one for a number is given the number. -/
def serve : Request → Session (Option Nat)
  | .text s => do
    return some (← Check.atom s)
  | .literal v => do
    Check.enterText v
    return some (← Check.enterLiteral v)
  | .literalType v => do
    Check.enterText v
    let e ← Check.intern (·.literalType v)
    modify (·.push e.ty)
    return some e.id
  | .pathType x => do
    let e ← Check.intern (·.pathType x)
    modify (·.push e.ty)
    return some e.id
  | .question q => do
    let _ ← cx.resolver.respond q
    return none
  | .diagnostics => do
    let _ ← Check.takeDiagnostics
    return none
  | .evaluate => do
    cx.evaluate
    return none

/-- Serves requests one after the other, and keeps a log of them. -/
def serveAll (rs : List Request) : Session (List (Request × Option Nat)) :=
  rs.mapM fun r => return (r, ← cx.serve r)

end Context

def Request.singleton? : Request → Option Ty
  | .literalType v => some (.literal v)
  | .pathType x => some (.path x)
  | _ => none

/-- A number leads to an entry of a type. -/
def InternCache.Gives (c : InternCache) (n : TypeId) (t : Ty) : Prop :=
  ∃ e, c.types[n]? = some e ∧ e.id = n ∧ e.ty = t

/-- The answer to a request is the number of what was asked for. -/
def Request.Entered (a : Option Nat) (c : Checker) : Request → Prop
  | .text s => ∃ n, a = some n ∧ c.names.get? n = some s
  | .literal v => ∃ n, a = some n ∧ c.interns.literals[n]? = some v
  | .literalType v => ∃ n, a = some n ∧ c.interns.Gives n (.literal v)
  | .pathType x => ∃ n, a = some n ∧ c.interns.Gives n (.path x)
  | _ => True

theorem InternCache.Extends.gives {c c' : InternCache} {n : TypeId} {t : Ty} (grown : c.Extends c')
    (gives : c.Gives n t) : c'.Gives n t :=
  gives.imp fun _ => And.imp_left grown.type

theorem InternCache.Consistent.gives {c : InternCache} (ok : c.Consistent) {e : TypeEntry} {t : Ty}
    (entry : e ∈ c.types ∧ e.ty = t) : c.Gives e.id t :=
  ⟨e, ok.at_id entry.1, rfl, entry.2⟩

theorem InternCache.Consistent.gives_eq_iff {c : InternCache} (ok : c.Consistent) {m n : TypeId}
    {s t : Ty} (first : c.Gives m s) (second : c.Gives n t) : m = n ↔ s = t := by
  obtain ⟨e, entry, rfl, rfl⟩ := first
  obtain ⟨e', entry', rfl, rfl⟩ := second
  exact (ok.ty_eq_iff (Array.mem_of_getElem? entry) (Array.mem_of_getElem? entry')).symm

theorem Request.Entered.mono {r : Request} {a : Option Nat} {c c₁ : Checker}
    (entered : r.Entered a c) (grown : c.Extends c₁) : r.Entered a c₁ := by
  cases r with
  | text s => exact entered.imp fun _ => And.imp_right grown.names.get?
  | literal v => exact entered.imp fun _ => And.imp_right grown.interns.literal
  | literalType v => exact entered.imp fun _ => And.imp_right grown.interns.gives
  | pathType x => exact entered.imp fun _ => And.imp_right grown.interns.gives
  | _ => trivial

namespace Context

variable {cx : Context} {ts ts' : Array Ty} {c c' : Checker}

theorem evaluate_upholds (ground : cx.Grounded) (spelled : cx.Spelled) (coherent : cx.Coherent c) :
    cx.Upholds c cx.evaluate fun _ _ => True := by
  have folds := fold_upholds ground spelled coherent
  refine (folds.bind (f := fun folding => modify fun c =>
    { c with names := (Plan.mk cx c folding.values).outcome.names })
    fun folding c₁ coherent₁ _ _ => ?_).congr ?_
  · exact .spell ground coherent₁ rfl (Plan.outcome_names ⟨cx, c₁, folding.values⟩) trivial
  · rw [evaluate, Checked.evaluate, Check.bind_apply]
    cases run : cx.fold c <;> simp only [StateT.run, run] <;> rfl

theorem takeDiagnostics_upholds (ground : cx.Grounded) (coherent : cx.Coherent c) :
    cx.Upholds c Check.takeDiagnostics fun _ _ => True :=
  .get ((Upholds.aside ground coherent rfl).bind fun _ _ coherent₁ _ _ => .pure coherent₁ trivial)

/-- A request is served with the number of what it asks for, and all entries stay. -/
theorem serve_enters (ground : cx.Grounded) (spelled : cx.Spelled) (hosts : cx.Hosts ts c)
    (r : Request) : cx.Conducts ts c (cx.serve r) fun a c' => r.Entered a c' := by
  have coherent := hosts.coherent
  cases r with
  | text s =>
    have enters : cx.Upholds c (Check.atom s) fun n c' => c'.names.get? n = some s := by
      intro n c' run
      cases run
      have grown := c.names.extends_insert s
      exact ⟨coherent.entered ground grown (coherent.filed.spell grown),
        .framed coherent.orderly ground ⟨rfl, rfl, rfl, fun _ _ => rfl⟩
          ⟨⟨grown, .refl _⟩, .refl _, fun _ => .inl⟩, c.names.enter_get? s⟩
    exact .ask hosts enters fun n _ hosts₁ entry => .pure hosts₁ ⟨n, rfl, entry⟩
  | literal v =>
    refine .ask hosts (.enterText ground coherent v) fun _ c₁ hosts₁ own => ?_
    exact .ask hosts₁ (.enterLiteral ground hosts₁.coherent own) fun n _ hosts₂ entry =>
      .pure hosts₂ ⟨n, rfl, entry⟩
  | literalType v =>
    refine .ask hosts (.enterText ground coherent v) fun _ c₁ hosts₁ own => ?_
    refine .ask hosts₁ (.literalType ground hosts₁.coherent own) fun e c₂ hosts₂ entry => ?_
    intro y ts' c' run
    cases run
    exact ⟨hosts₂.push (Ty.filed_iff.mpr ⟨e, entry.1, rfl⟩), hosts₂.refl, e.id, rfl,
      hosts₂.coherent.filed.interns.gives entry⟩
  | pathType x =>
    have entry := coherent.filed.interns.pathType_entry x
    obtain ⟨hosts', later⟩ := hosts.path ground x
    intro y ts' c' run
    cases run
    rw [entry.2]
    exact ⟨hosts', later, _, rfl, hosts'.coherent.filed.interns.gives entry⟩
  | question q =>
    rw [serve, resolver_eq]
    exact .bind ((cx.keeper ground spelled).respond ground spelled hosts q)
      fun _ _ _ hosts₁ _ => .pure hosts₁ trivial
  | diagnostics =>
    exact .ask hosts (takeDiagnostics_upholds ground coherent) fun _ _ hosts₁ _ =>
      .pure hosts₁ trivial
  | evaluate =>
    exact .ask hosts (evaluate_upholds ground spelled coherent) fun _ _ hosts₁ _ =>
      .pure hosts₁ trivial

/-- Requests one after the other: whatever a log has is still entered at its end. -/
theorem serveAll_enters (ground : cx.Grounded) (spelled : cx.Spelled) (rs : List Request)
    (hosts : cx.Hosts ts c) :
    cx.Conducts ts c (cx.serveAll rs) fun log c' =>
      log.map Prod.fst = rs ∧ ∀ r a, (r, a) ∈ log → r.Entered a c' := by
  induction rs generalizing ts c with
  | nil => exact .pure hosts ⟨rfl, nofun⟩
  | cons r rs ih =>
    have first : cx.Conducts ts c (do return (r, ← cx.serve r)) fun y c' =>
        y.1 = r ∧ y.1.Entered y.2 c' :=
      (serve_enters ground spelled hosts r).bind fun _ _ _ hosts₁ own => .pure hosts₁ ⟨rfl, own⟩
    rw [serveAll, List.mapM_cons]
    refine first.bind fun y ts₁ c₁ hosts₁ ⟨same, own⟩ => ?_
    have rest := (ih hosts₁).weaken fun log c₂ later kept =>
      And.intro kept (own.mono later.toExtends)
    refine rest.bind fun log ts₂ c₂ hosts₂ ⟨⟨served, kept⟩, own₂⟩ => .pure hosts₂ ⟨?_, ?_⟩
    · rw [List.map_cons, same, served]
    · intro r' a member
      rcases List.mem_cons.mp member with head | later
      · subst head
        exact own₂
      · exact kept r' a later

end Context

/-! ### Exact numbers -/

def Literal.payload : Literal → UInt64 ⊕ String
  | .int v => .inl v.toUInt32.toUInt64
  | .long v => .inl v.toUInt64
  | .double v => .inl v.bits
  | .bool v => .inl v.toNat.toUInt64
  | .str v => .inr v
  | .char v => .inl v.val.toUInt64
  | .unit => .inl 0
  | .null => .inl 0

theorem Literal.eq_iff {v w : Literal} : v = w ↔ v.kind = w.kind ∧ v.payload = w.payload := by
  refine ⟨fun same => same ▸ ⟨rfl, rfl⟩, ?_⟩
  rintro ⟨kinds, payloads⟩
  cases v <;> cases w <;> simp only [kind, reduceCtorEq] at kinds <;>
    simp only [payload, Sum.inl.injEq, Sum.inr.injEq] at payloads
  case int.int a b =>
    have bits := congrArg UInt32.toInt32 (UInt32.toUInt64_inj.mp payloads)
    rw [Int32.toInt32_toUInt32, Int32.toInt32_toUInt32] at bits
    rw [bits]
  case long.long a b =>
    have bits := congrArg UInt64.toInt64 payloads
    rw [Int64.toInt64_toUInt64, Int64.toInt64_toUInt64] at bits
    rw [bits]
  case double.double a b => rw [show a = b from congrArg Binary64.mk payloads]
  case bool.bool a b => cases a <;> cases b <;> first | rfl | exact absurd payloads (by decide)
  case str.str a b => rw [payloads]
  case char.char a b => rw [Char.ext (UInt32.toUInt64_inj.mp payloads)]
  all_goals rfl

namespace Checker

/-- A type that a checker has found. -/
inductive Finds (c : Checker) : Ty → Prop
  | symbol {x : SymbolId} {t : Ty} (found : c.symbolTypes.find? x = some t) : Finds c t
  | target {x : SymbolId} {t : Ty} (found : c.aliasTargets.find? x = some t) : Finds c t
  | node {i : NodeId} {t : Ty} (found : c.nodeTypes.find? i = some t) : Finds c t
  | param {i : NodeId} {sig : Signature} {t : Ty} (found : c.signatures.find? i = some sig)
    (member : t ∈ sig.params) : Finds c t
  | result {i : NodeId} {sig : Signature} (found : c.signatures.find? i = some sig) :
    Finds c sig.result
  | witness {i : NodeId} {w : Witness} (found : c.witnesses.find? i = some w) : Finds c w.ty

variable {c : Checker} {s t : Ty}

theorem Filed.finds (filed : c.Filed) (finds : c.Finds t) : t ∈ c.types := by
  cases finds with
  | symbol found => exact filed.symbolTypes _ t found
  | target found => exact filed.aliasTargets _ t found
  | node found => exact filed.nodeTypes _ t found
  | param found member => exact (filed.signatures _ _ found).params t member
  | result found => exact (filed.signatures _ _ found).result
  | witness found => exact (filed.witnesses _ _ found).ty

end Checker

/-- The numbers in use are those below the sizes, and the tables lead to each of them. -/
structure Checker.Dense (c : Checker) : Prop where
  texts : ∀ n, n < c.names.size ↔ ∃ s, c.names.index? s = some n
  literals : ∀ n, n < c.interns.literals.size ↔ ∃ v, c.interns.literalIds.find? v = some n
  types : ∀ n, n < c.interns.types.size ↔ ∃ t e, c.interns.entry? t = some e ∧ e.id = n

theorem InternCache.Consistent.dense {c : Checker} (ok : c.interns.Consistent) : c.Dense where
  texts n := by
    simp only [Roster.index?_eq_some, ← Option.isSome_iff_exists, Roster.get?_isSome_iff]
  literals n := by
    simp only [ok.literalIds, ← Option.isSome_iff_exists, isSome_getElem?]
  types n := by
    constructor
    · intro inside
      have entry := Array.getElem?_eq_getElem inside
      exact ⟨_, _, ok.entry?_ty (Array.getElem_mem inside), ok.number n _ entry⟩
    · rintro ⟨t, e, found, rfl⟩
      exact (Array.getElem?_eq_some_iff.mp (ok.at_id (ok.entry?_spec found).1)).1

/-- Numbers lead to the same texts, literals and types as before. -/
structure Checker.Remembers (c c' : Checker) : Prop where
  texts : ∀ n s, c.names.get? n = some s → c'.names.get? n = some s
  literals : ∀ (n : LiteralId) v,
    c.interns.literals[n]? = some v → c'.interns.literals[n]? = some v
  types : ∀ (n : TypeId) e, c.interns.types[n]? = some e → c'.interns.types[n]? = some e

theorem Checker.Extends.remembers {c c' : Checker} (grown : c.Extends c') : c.Remembers c' :=
  ⟨fun _ _ => grown.names.get?, fun _ _ => grown.interns.literal, fun _ _ => grown.interns.type⟩

/-- What the numbers in a log of requests tell. -/
structure Context.Interned (cx : Context) (log : List (Request × Option Nat)) (ts : Array Ty)
    (c : Checker) : Prop where
  /-- The number of a text leads to the text. -/
  text : ∀ s a, (.text s, a) ∈ log → ∃ n, a = some n ∧ c.names.get? n = some s
  sameText : ∀ s a s' a', (.text s, a) ∈ log → (.text s', a') ∈ log → (a = a' ↔ s = s')
  /-- The number of a literal leads to the literal. -/
  literal : ∀ v a, (.literal v, a) ∈ log → ∃ n, a = some n ∧ c.interns.literals[n]? = some v
  sameLiteral : ∀ v a v' a', (.literal v, a) ∈ log → (.literal v', a') ∈ log →
    (a = a' ↔ v.kind = v'.kind ∧ v.payload = v'.payload)
  /-- The number of a singleton leads to an entry of this singleton. -/
  singleton : ∀ r a t, (r, a) ∈ log → r.singleton? = some t →
    ∃ n, a = some n ∧ c.interns.Gives n t
  sameSingleton : ∀ r a t r' a' t', (r, a) ∈ log → r.singleton? = some t →
    (r', a') ∈ log → r'.singleton? = some t' → (a = a' ↔ t = t')
  /-- The program's own texts were entered before. -/
  spelled : ∀ k ∈ cx.program.nodes, ∀ s, k.text? = some s →
    ∃ n, cx.names.get? n = some s ∧ c.names.get? n = some s
  witness : ∀ i w, c.witnesses.find? i = some w →
    c.interns.literals[w.literal]? = some w.value
  consistent : c.interns.Consistent
  dense : c.Dense
  /-- Every type that was answered or found has one entry. -/
  entered : ∀ t, t ∈ ts ∨ c.Finds t → ∃ e, c.interns.entry? t = some e ∧ e.ty = t
  /-- Types can be compared by their numbers. -/
  sameType : ∀ s ∈ c.interns.types, ∀ t ∈ c.interns.types,
    (s.equal t = true ↔ s.id = t.id) ∧ (s.ty = t.ty ↔ s.id = t.id)
  /-- Whatever is asked later, all numbers lead to the same entries. -/
  later : ∀ rs log' ts' c', (cx.serveAll rs).run ts c = .ok ((log', ts'), c') → c.Remembers c'

/-- Two answers are the same number if and only if the entries are the same that they lead to. -/
theorem answers_eq_iff {α : Type} {P : Nat → α → Prop} {a a' : Option Nat} {x y : α}
    (first : ∃ n, a = some n ∧ P n x) (second : ∃ n, a' = some n ∧ P n y)
    (agree : ∀ m n, P m x → P n y → (m = n ↔ x = y)) : a = a' ↔ x = y := by
  obtain ⟨m, rfl, leads⟩ := first
  obtain ⟨n, rfl, leads'⟩ := second
  rw [Option.some.injEq, agree m n leads leads']

/-- From a fresh unit on, whatever it is asked and in whatever order, numbers are exact: equal
texts, literals and singletons have one number and different ones have different numbers, a number
leads to its entry for ever, the tables agree with what is entered, and types are equal if and only
if their numbers are. -/
theorem Draft.requests_intern (d : Draft) (options : Options) (rs : List Request)
    {log : List (Request × Option Nat)} {ts : Array Ty} {c : Checker}
    (run : ((d.context options).serveAll rs).run #[] (.start (d.context options).names) =
      .ok ((log, ts), c)) :
    log.map Prod.fst = rs ∧ (d.context options).Interned log ts c := by
  have ground := d.grounded options
  have spelled := d.spelled options
  obtain ⟨hosts, _, served, kept⟩ :=
    Context.serveAll_enters ground spelled rs (.start (d.context options)) log ts c run
  have filed := hosts.coherent.filed
  have single : ∀ r a t, (r, a) ∈ log → r.singleton? = some t →
      ∃ n, a = some n ∧ c.interns.Gives n t := by
    intro r a t member asked
    cases r with
    | literalType v =>
      cases asked
      exact kept _ a member
    | pathType x =>
      cases asked
      exact kept _ a member
    | _ => cases asked
  refine ⟨served, ?_⟩
  exact {
    text := fun s a member => kept _ a member
    sameText := fun s a s' a' first second =>
      answers_eq_iff (P := fun n s => c.names.get? n = some s) (kept _ a first) (kept _ a' second)
        fun _ _ one other => Roster.get?_eq_iff one other
    literal := fun v a member => kept _ a member
    sameLiteral := fun v a v' a' first second =>
      (answers_eq_iff (P := fun n v => c.interns.literals[n]? = some v) (kept _ a first)
        (kept _ a' second) fun _ _ one other => filed.interns.literal_eq_iff one other).trans
        Literal.eq_iff
    singleton := single
    sameSingleton := fun r a t r' a' t' first asked second asked' =>
      answers_eq_iff (single r a t first asked) (single r' a' t' second asked')
        fun _ _ one other => filed.interns.gives_eq_iff one other
    spelled := by
      intro k member s text
      have own := (Source.anchor_spells 0 d.text d.stmts).2 k member s text
      obtain ⟨n, entry⟩ := Roster.mem_iff_get?.mp own
      exact ⟨n, entry, hosts.coherent.names.get? entry⟩
    witness := fun i w found => (filed.witnesses i w found).literal
    consistent := filed.interns
    dense := filed.interns.dense
    entered := by
      intro t known
      have inside : t.Filed c := known.elim (hosts.kept t) filed.finds
      obtain ⟨e, member, rfl⟩ := Ty.filed_iff.mp inside
      exact ⟨e, filed.interns.entry?_ty member, rfl⟩
    sameType := fun s left t right =>
      ⟨filed.interns.equal_iff left right, filed.interns.ty_eq_iff left right⟩
    later := by
      intro more log' ts' c' run'
      obtain ⟨_, later, _⟩ := Context.serveAll_enters ground spelled more hosts log' ts' c' run'
      exact later.toExtends.remembers }

/-- A draft whose run makes a text that it does not contain. -/
def Draft.joining : Draft where
  text := "val x = \"a\" + \"b\""
  stmts :=
    [.val ⟨[], .val, ⟨[], "x"⟩, none,
      .bin [] (.arith .add) (.lit ⟨[], .str "a"⟩) (.lit ⟨[], .str "b"⟩)⟩]

/-- The text that the run makes keeps the number that it was given before; the two zeros have
different numbers. -/
theorem Draft.requests_intern_joining : ∃ log ts c,
    ((joining.context default).serveAll [.text "ab", .literal (.double ⟨0⟩), .question .check,
      .literal (.double ⟨0x8000000000000000⟩), .literalType (.str "ab"), .pathType 2, .evaluate,
      .text "ab", .pathType 2]).run #[] (.start (joining.context default).names) =
        .ok ((log, ts), c) ∧
    log.map Prod.snd =
      [some 15, some 0, none, some 4, some 13, some 14, none, some 15, some 14] ∧
    (joining.context default).Interned log ts c := by
  have served : (match ((joining.context default).serveAll [.text "ab", .literal (.double ⟨0⟩),
      .question .check, .literal (.double ⟨0x8000000000000000⟩), .literalType (.str "ab"),
      .pathType 2, .evaluate, .text "ab", .pathType 2]).run #[]
        (.start (joining.context default).names) with
    | .error _ => false
    | .ok ((log, _), _) => log.map Prod.snd ==
      [some 15, some 0, none, some 4, some 13, some 14, none, some 15, some 14]) = true := by
    decide +kernel
  split at served
  · cases served
  next log ts c run =>
  exact ⟨log, ts, c, run, eq_of_beq served, (requests_intern joining default _ run).2⟩

end Solo
