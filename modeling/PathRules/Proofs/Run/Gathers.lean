import PathRules.Proofs.Run.Advances

/-!
# What an open group gathers

`Told` says of a computation on a run that it follows an evaluation to a trace: where both
answer, the run has gained the node of the trace at its current node, has sent the events of
the trace, and is otherwise as it was; only the store and what is compiled may differ.
`Gathers` says the same of a part of such a computation, which works on the group that is open.
-/

namespace PathRules

variable {α β γ δ : Type} {g : ObjectGraph} {rules : Rules} {sign : Sign}

/-- The run answers as the trace does, and `after` has gained the node of the trace. -/
def Tells (g : ObjectGraph) (run : Run) (passed : Bool) (t : Trace) (after : Run) : Prop :=
  passed = t.passed ∧
    Advances g run (run.stack.receive t.node) (t.events run.origin run.stack.place) after

/-- Every run whose current node accepts a child and whose rulebook serves `rules` follows the
check and tells its trace. -/
def Told (g : ObjectGraph) (rules : Rules) (m : RunM Bool) (check : Check Trace) : Prop :=
  ∀ run : Run, run.stack.isOpen = true → run.rulebook.rules g = rules →
    Follows g m run check (Tells g run)

/-- The children that a group gains along with an answer, and the events that are sent. -/
structure Yield (β : Type) where
  nodes : β → List (Node Leaf)
  events : String → DataPath → β → List Event

namespace Yield

/-- A failed test leaves its leaf. -/
def test : Yield (Option Leaf) where
  nodes test := test.toList.map .leaf
  events origin place test := test.toList.map (Event.ofLeaf origin place)

/-- What a trace leaves is taken in by the sign of the group. -/
def trace (sign : Sign) : Yield Trace where
  nodes t := t.node.toList.flatMap (·.splicedInto sign)
  events origin place t := t.events origin place

def list (y : Yield β) : Yield (List β) where
  nodes bs := bs.flatMap y.nodes
  events origin place bs := bs.flatMap (y.events origin place)

def pair (y : Yield β) (z : Yield δ) : Yield (β × δ) where
  nodes b := y.nodes b.1 ++ z.nodes b.2
  events origin place b := y.events origin place b.1 ++ z.events origin place b.2

theorem nodes_tests (tests : List (Option Leaf)) :
    test.list.nodes tests = Trace.failureNodes tests :=
  (Trace.failureNodes_eq_flatMap tests).symm

theorem nodes_traces (sign : Sign) (ts : List Trace) :
    (trace sign).list.nodes ts = Trace.nodesIn sign ts :=
  (Trace.nodesIn_eq_flatMap sign ts).symm

theorem events_tests (origin : String) (place : DataPath) (tests : List (Option Leaf)) :
    test.list.events origin place tests =
      (tests.filterMap id).map (Event.ofLeaf origin place) := by
  induction tests with
  | nil => rfl
  | cons test tests ih => cases test <;> simp_all [list, Yield.test]

theorem events_traces (sign : Sign) (origin : String) (place : DataPath) (ts : List Trace) :
    (trace sign).list.events origin place ts = Trace.eventsOf origin place ts :=
  (Trace.eventsOf_eq_flatMap origin place ts).symm

end Yield

/-- Every run whose current node is a group of the given sign follows the check; the group
gains what the answer of the check yields. -/
def Gathers (g : ObjectGraph) (rules : Rules) (sign : Sign) (m : RunM α) (check : Check β)
    (answer : α → β → Prop) (y : Yield β) : Prop :=
  ∀ (run : Run) (below : Stack) (children : List (Node Leaf)),
    run.stack = below.push (.group sign true children) → run.rulebook.rules g = rules →
      Follows g m run check fun a b after => answer a b ∧
        Advances g run (below.push (.group sign true (children ++ y.nodes b)))
          (y.events run.origin run.stack.place b) after

namespace Gathers

variable {m : RunM α} {check : Check β} {answer : α → β → Prop} {y : Yield β} {z : Yield δ}

theorem of_pure {a : α} {b : β} (h : answer a b) (hnodes : y.nodes b = [])
    (hevents : ∀ origin place, y.events origin place b = []) :
    Gathers g rules sign (pure a) (pure b) answer y := by
  intro run below children hstack _
  refine Follows.of_pure ⟨h, ?_⟩
  rw [hnodes, hevents, List.append_nil, ← hstack]
  exact .refl run

theorem of_throw (fault : Fault) : Gathers g rules sign (throw fault) (throw fault) answer y :=
  fun _ _ _ _ _ => Follows.of_throw fault

/-- Both read the graph first. -/
theorem after_read {f : ObjectGraph → RunM α} {k : ObjectGraph → Check β}
    (h : Gathers g rules sign (f g) (k g) answer y) :
    Gathers g rules sign (read >>= f) (read >>= k) answer y := h

/-- Both look at the store first. -/
theorem after_get {f : Store → RunM α} {k : Store → Check β}
    (h : ∀ store, Gathers g rules sign (f store) (k store) answer y) :
    Gathers g rules sign (get >>= fun run => f run.store) (get >>= k) answer y :=
  fun run below children hstack hrules => h run.store run below children hstack hrules

/-- A check of the store comes first. -/
theorem after_check {c : Check γ} {f : γ → RunM α} {k : γ → Check β}
    (h : ∀ a, Gathers g rules sign (f a) (k a) answer y) :
    Gathers g rules sign (RunM.ofCheck c >>= f) (c >>= k) answer y := by
  intro run below children hstack hrules
  refine (Follows.of_check c).bind fun a _ mid ⟨agree, left⟩ => ?_
  subst agree
  rw [left]
  exact (h a { run with store := mid.store } below children hstack hrules).mono
    fun _ _ _ related => ⟨related.1, related.2.since_check⟩

theorem fmap {f : α → γ} {answer' : γ → β → Prop}
    (h : Gathers g rules sign m check answer y) (imp : ∀ a b, answer a b → answer' (f a) b) :
    Gathers g rules sign (f <$> m) check answer' y := by
  intro run below children hstack hrules
  rw [← bind_pure_comp, ← bind_pure check]
  exact (h run below children hstack hrules).map fun a b _ related =>
    ⟨imp a b related.1, related.2⟩

/-- Two computations in the same group: what they gain is appended. -/
theorem seq {f : α → RunM γ} {k : β → Check δ} {answer' : γ → β × δ → Prop}
    (first : Gathers g rules sign m check answer y)
    (second : ∀ a b, answer a b →
      Gathers g rules sign (f a) (k b) (fun c d => answer' c (b, d)) z) :
    Gathers g rules sign (m >>= f) (do let b ← check; let d ← k b; pure (b, d)) answer'
      (y.pair z) := by
  intro run below children hstack hrules
  refine (first run below children hstack hrules).bind fun a b mid ⟨related, advanced⟩ => ?_
  have place : mid.stack.place = run.stack.place := by
    rw [advanced.stack_eq, hstack]
    rfl
  have rest := second a b related mid below _ advanced.stack_eq (advanced.rules_eq.trans hrules)
  rw [← bind_pure (f a)]
  refine rest.bind fun c d after ⟨related', advanced'⟩ => Follows.of_pure ⟨related', ?_⟩
  rw [advanced.origin_eq, place, List.append_assoc] at advanced'
  exact advanced.trans advanced'

/-- The answer of the check may be put in another form. -/
theorem convert {k : β → δ} {answer' : α → δ → Prop}
    (h : Gathers g rules sign m check (fun a b => answer' a (k b)) y)
    (hnodes : ∀ b, z.nodes (k b) = y.nodes b)
    (hevents : ∀ origin place b, z.events origin place (k b) = y.events origin place b) :
    Gathers g rules sign m (do let b ← check; pure (k b)) answer' z := by
  intro run below children hstack hrules
  rw [← bind_pure m]
  refine (h run below children hstack hrules).map fun a b _ related => ?_
  rw [hnodes, hevents]
  exact related

/-- One more entry in a list of answers. -/
theorem cons {f : α → RunM γ} {k : β → Check (List β)} {answer' : γ → List β → Prop}
    (first : Gathers g rules sign m check answer y)
    (second : ∀ a b, answer a b →
      Gathers g rules sign (f a) (k b) (fun c bs => answer' c (b :: bs)) y.list) :
    Gathers g rules sign (m >>= f) (do let b ← check; let bs ← k b; pure (b :: bs)) answer'
      y.list := by
  have both : Gathers g rules sign (m >>= f) (do let b ← check; let bs ← k b; pure (b, bs))
      (fun c entries => answer' c (entries.1 :: entries.2)) (y.pair y.list) :=
    first.seq second
  have listed : Gathers g rules sign (m >>= f)
      (do let entries ← (do let b ← check; let bs ← k b; pure (b, bs))
          pure (entries.1 :: entries.2)) answer' y.list :=
    both.convert (fun _ => rfl) fun _ _ _ => rfl
  simpa only [bind_assoc, pure_bind] using listed

/-- One check of a group and those that come after it, unless the first ends them. -/
theorem turn {rest : RunM γ} {checks : List (Check β)} {ends : β → Bool} {next : α → RunM γ}
    {answer' answer'' : γ → List β → Prop}
    (first : Gathers g rules sign m check answer y)
    (later : Gathers g rules sign rest (Check.inTurn ends checks) answer' y.list)
    (ended : ∀ a b, answer a b → ends b = true → ∃ c, next a = pure c ∧ answer'' c [b])
    (continued : ∀ a b, answer a b → ends b = false →
      ∃ f, next a = f <$> rest ∧ ∀ c bs, answer' c bs → answer'' (f c) (b :: bs)) :
    Gathers g rules sign (m >>= next) (Check.inTurn ends (check :: checks)) answer'' y.list := by
  refine first.cons (k := fun b => if ends b then pure [] else Check.inTurn ends checks)
    fun a b related => ?_
  cases h : ends b with
  | true =>
    obtain ⟨c, answered, holds⟩ := ended a b related h
    rw [answered]
    exact of_pure holds rfl fun _ _ => rfl
  | false =>
    obtain ⟨f, answered, imp⟩ := continued a b related h
    rw [answered]
    exact later.fmap fun c bs holds => imp c bs holds

/-- A group is opened, gathers its children and is closed: what it left is told by a trace
that is made from what it gathered. -/
theorem told {body : RunM Bool} {make : β → Trace} (keepWarnings : Bool)
    (gathered : Gathers g rules sign body check (fun passed b => passed = (make b).passed) y)
    (hnode : ∀ b, (make b).node =
      if keepWarnings then (Node.group sign (y.nodes b)).kept (make b).passed
      else if (make b).passed then none else some (.group sign (y.nodes b)))
    (hevents : ∀ origin place b, (make b).events origin place = y.events origin place b) :
    Told g rules
      (do RunM.openGroup sign; let valid ← body; RunM.close valid keepWarnings)
      (do let b ← check; pure (make b)) := by
  intro run isOpen hrules
  apply Follows.before (RunM.runOn_modifyStack (·.openGroup sign) run) rfl
  refine (gathered { run with stack := run.stack.openGroup sign } run.stack [] rfl hrules).bind
    fun passed b after ⟨agree, advanced⟩ => ?_
  subst agree
  have closed : ∃ after', (RunM.close (make b).passed keepWarnings).runOn g after =
      (.ok (make b).passed, after') ∧
        after' = { after with stack := run.stack.receive (make b).node } := by
    have onTop := advanced.stack_eq
    rw [List.nil_append] at onTop
    refine ⟨_, ?_, rfl⟩
    cases keepWarnings with
    | true =>
      rw [RunM.runOn_close_keeping (make b).passed onTop rfl isOpen, hnode, if_pos rfl]
      rfl
    | false =>
      rw [RunM.runOn_close_dropping (make b).passed onTop rfl isOpen, hnode,
        if_neg Bool.false_ne_true]
      rfl
  obtain ⟨after', closing, rfl⟩ := closed
  refine Follows.answer closing rfl ⟨rfl, rfl, ?_, advanced.observed_eq, advanced.origin_eq,
    advanced.rules_eq⟩
  have sent := advanced.events_eq
  rwa [show (run.stack.openGroup sign).place = run.stack.place from Stack.place_push_group sign [],
    ← hevents] at sent

end Gathers

/-- Both read the graph first. -/
theorem Told.after_read {f : ObjectGraph → RunM Bool} {k : ObjectGraph → Check Trace}
    (h : Told g rules (f g) (k g)) : Told g rules (read >>= f) (read >>= k) := h

/-- Both look at the store first. -/
theorem Told.after_get {f : Store → RunM Bool} {k : Store → Check Trace}
    (h : ∀ store, Told g rules (f store) (k store)) :
    Told g rules (get >>= fun run => f run.store) (get >>= k) :=
  fun run isOpen hrules => h run.store run isOpen hrules

/-- A check of the store comes first. -/
theorem Told.after_check {c : Check α} {f : α → RunM Bool} {k : α → Check Trace}
    (h : ∀ a, Told g rules (f a) (k a)) : Told g rules (RunM.ofCheck c >>= f) (c >>= k) := by
  intro run isOpen hrules
  refine (Follows.of_check c).bind fun a _ mid ⟨agree, left⟩ => ?_
  subst agree
  rw [left]
  exact (h a { run with store := mid.store } isOpen hrules).mono
    fun _ _ _ related => ⟨related.1, related.2.since_check⟩

/-- What a validation leaves for a group is received by the sign of the group. -/
theorem Told.gathers {m : RunM Bool} {check : Check Trace} (h : Told g rules m check) :
    Gathers g rules sign m check (fun passed t => passed = t.passed) (.trace sign) := by
  intro run below children hstack hrules
  have isOpen : run.stack.isOpen = true := by
    rw [hstack]
    rfl
  refine (h run isOpen hrules).mono fun passed t after ⟨agree, advanced⟩ => ⟨agree, ?_⟩
  rwa [hstack, Stack.receive_push_group, ← hstack] at advanced

end PathRules
