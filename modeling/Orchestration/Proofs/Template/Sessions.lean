import Orchestration.Proofs.Template.Growth
import Orchestration.Proofs.Template.Visits

/-!
# Questions to one tree

A session asks one parsed tree questions in any order, at inner nodes too, while the stack changes.
As long as the stack only grows, every answer is what a tree that was just parsed would give: the
invariant is that the tree is faithful to the stack as it is now.
-/

set_option autoImplicit false

namespace Orchestration

namespace Node

variable {α : Type}

/-! ## Operations at inner nodes -/

def below? (path : List Json) (node : Node) : Option Node :=
  (stepAt (fun x => (x, x)) path node).map Prod.snd

theorem answer_stepAt (act : Node → Node × α) (path : List Json) (node : Node) :
    (stepAt act path node).map Prod.snd = (below? path node).map fun x => (act x).2 := by
  unfold below?
  fun_induction stepAt act path node with
  | case1 node => simp [stepAt]
  | case2 key path entries missing => simp [stepAt, missing]
  | case3 key path entries x found ih =>
    simpa only [stepAt, found, Option.map_map, Function.comp_def] using ih
  | case4 i path items negative => simp [stepAt, negative]
  | case5 i path items notNegative missing => simp [stepAt, missing]
  | case6 i path items notNegative x found ih =>
    simpa only [stepAt, notNegative, if_false, found, Option.map_map, Function.comp_def] using ih
  | case7 path function name args memo ih =>
    simpa only [stepAt, Option.map_map, Function.comp_def] using ih
  | case8 => simp [stepAt]

theorem below?_stepAt (act : Node → Node × α) (path : List Json) (node : Node) :
    ∀ reached ∈ stepAt act path node,
      ∃ x, below? path node = some x ∧ below? path reached.1 = some (act x).1 := by
  unfold below?
  fun_induction stepAt act path node with
  | case1 node =>
    intro reached member
    cases member
    exact ⟨node, rfl, rfl⟩
  | case3 key path entries x found ih =>
    intro reached member
    obtain ⟨inner, below, rfl⟩ := Option.map_eq_some_iff.mp member
    obtain ⟨y, before, after⟩ := ih inner below
    refine ⟨y, ?_, ?_⟩
    · simpa only [stepAt, found, Option.map_map, Function.comp_def] using before
    · simpa only [stepAt, Entries.get?_put, if_pos, Option.map_map, Function.comp_def] using after
  | case6 i path items notNegative x found ih =>
    intro reached member
    obtain ⟨inner, below, rfl⟩ := Option.map_eq_some_iff.mp member
    obtain ⟨y, before, after⟩ := ih inner below
    have bound := (List.getElem?_eq_some_iff.mp found).1
    refine ⟨y, ?_, ?_⟩
    · simpa only [stepAt, notNegative, if_false, found, Option.map_map, Function.comp_def]
        using before
    · simpa only [stepAt, notNegative, if_false, List.getElem?_set_self bound, Option.map_map,
        Function.comp_def] using after
  | case7 path function name args memo ih =>
    intro reached member
    obtain ⟨inner, below, rfl⟩ := Option.map_eq_some_iff.mp member
    obtain ⟨y, before, after⟩ := ih inner below
    exact ⟨y, by simpa only [stepAt, Option.map_map, Function.comp_def] using before,
      by simpa only [stepAt, Option.map_map, Function.comp_def] using after⟩
  | _ => simp

theorem Fuller.below? {scope : Scope} {before after : Node} (fuller : Fuller scope before after)
    (path : List Json) :
    (before.below? path = none ∧ after.below? path = none) ∨
      ∃ x y, before.below? path = some x ∧ after.below? path = some y ∧ Fuller scope x y := by
  unfold Node.below?
  induction path generalizing before after with
  | nil => exact .inr ⟨before, after, rfl, rfl, fuller⟩
  | cons key rest ih =>
    cases fuller with
    | literal value => simp [stepAt]
    | list items after each =>
      cases key with
      | number n =>
        cases n with
        | integer i =>
          simp only [stepAt]
          split
          · exact .inl ⟨rfl, rfl⟩
          · rcases forall₂_getElem? each i.toNat with
              ⟨missing, missing'⟩ | ⟨x, y, found, found', one⟩
            · exact .inl ⟨by rw [missing]; rfl, by rw [missing']; rfl⟩
            · simpa only [found, found', Option.map_map, Function.comp_def] using ih one
        | float x => exact .inl ⟨rfl, rfl⟩
      | _ => simp [stepAt]
    | map entries after keys each =>
      cases key with
      | string key =>
        simp only [stepAt]
        rcases Entries.get?_related entries after keys each key with
          ⟨missing, missing'⟩ | ⟨x, y, found, found', one⟩
        · exact .inl ⟨by rw [missing]; rfl, by rw [missing']; rfl⟩
        · simpa only [found, found', Option.map_map, Function.comp_def] using ih one
      | _ => simp [stepAt]
    | call function name args after memo later below kept final =>
      cases key with
      | string key =>
        by_cases same : key = "args"
        · subst same
          simpa only [stepAt, Option.map_map, Function.comp_def] using ih below
        · simp [stepAt, same]
      | _ => simp [stepAt]

section StepAt

variable (scope : Scope) (act : Node → Node × α) (steady : Steady scope act)
include steady

theorem fuller_stepAt (path : List Json) (node : Node) :
    ∀ reached ∈ stepAt act path node, Fuller scope node reached.1 := by
  fun_induction stepAt act path node with
  | case1 node =>
    intro reached member
    cases member
    exact steady.fuller node
  | case3 key path entries x found ih =>
    intro reached member
    obtain ⟨inner, below, rfl⟩ := Option.map_eq_some_iff.mp member
    exact fuller_put scope entries key x inner.1 found (ih inner below)
  | case6 i path items notNegative x found ih =>
    intro reached member
    obtain ⟨inner, below, rfl⟩ := Option.map_eq_some_iff.mp member
    exact fuller_set scope items i.toNat x inner.1 found (ih inner below)
  | case7 path function name args memo ih =>
    intro reached member
    obtain ⟨inner, below, rfl⟩ := Option.map_eq_some_iff.mp member
    exact (ih inner below).args
  | _ => simp

theorem stepAt_alike (path : List Json) (before after : Node) (fuller : Fuller scope before after) :
    (stepAt act path after).map Prod.snd = (stepAt act path before).map Prod.snd := by
  rw [answer_stepAt, answer_stepAt]
  rcases fuller.below? path with ⟨missing, missing'⟩ | ⟨x, y, found, found', one⟩
  · rw [missing, missing']
  · rw [found, found', Option.map_some, Option.map_some, steady.alike x y one]

end StepAt

end Node

/-! ## Questions -/

/-- What a tree can be asked; a path leads to an inner node. -/
inductive Question where
  | resolve (path : List Json)
  | validate (path : List Json)
  | dependencies
  | attributeDependencies
  | attributeDependenciesOn (resource : String)

inductive Answer where
  | noNode
  | value (result : Except TemplateError Json)
  | valid (result : Except TemplateError Unit)
  | resources (result : Except TemplateError (List String))
  | attributes (result : Except TemplateError (List AttributeDependency))

namespace Node

def askAt (act : Node → Node × Answer) (path : List Json) (node : Node) : Node × Answer :=
  (stepAt act path node).getD (node, .noNode)

def ask (scope : Scope) (question : Question) (node : Node) : Node × Answer :=
  match question with
  | .resolve path =>
    node.askAt (fun node => ((resolve scope node).tree, .value (resolve scope node).value)) path
  | .validate path =>
    node.askAt (fun node => ((validate scope node).1, .valid (validate scope node).2)) path
  | .dependencies => ((dependencies scope node).1, .resources (dependencies scope node).2)
  | .attributeDependencies =>
    ((attributeDependencies scope node).1, .attributes (attributeDependencies scope node).2)
  | .attributeDependenciesOn resource =>
    ((attributeDependenciesOn scope resource node).1,
      .attributes (attributeDependenciesOn scope resource node).2)

theorem steady_askAt (scope : Scope) (act : Node → Node × Answer) (steady : Steady scope act)
    (path : List Json) : Steady scope (askAt act path) := by
  constructor
  · intro node
    unfold askAt
    cases here : stepAt act path node with
    | none => exact .refl
    | some reached => exact fuller_stepAt scope act steady path node reached here
  · intro before after fuller
    have same := stepAt_alike scope act steady path before after fuller
    unfold askAt
    cases here : stepAt act path before with
    | none =>
      rw [here, Option.map_none, Option.map_eq_none_iff] at same
      rw [same]
      rfl
    | some reached =>
      rw [here, Option.map_some, Option.map_eq_some_iff] at same
      obtain ⟨other, there, answer⟩ := same
      rw [there]
      exact answer

theorem steady_ask (scope : Scope) (question : Question) : Steady scope (ask scope question) := by
  cases question with
  | resolve path => exact steady_askAt scope _ ((steady_resolve scope).map .value) path
  | validate path =>
    exact steady_askAt scope _ ((steady_walk scope _ (steady_validateCall scope)).map
      fun found => Answer.valid (found.map fun _ => ())) path
  | dependencies =>
    exact (steady_walk scope _ (steady_resourceOfCall scope)).map
      fun found => Answer.resources (found.map (firstSeen (· == ·)))
  | attributeDependencies =>
    exact (steady_walk scope _ (steady_attributesOfCall scope)).map
      fun found => Answer.attributes (found.map (firstSeen AttributeDependency.same))
  | attributeDependenciesOn resource =>
    exact (steady_walk scope _ (steady_attributesOfCall scope)).map
      fun found => Answer.attributes ((found.map (firstSeen AttributeDependency.same)).map
        fun all => all.filter fun dependency => dependency.resource == resource)

theorem forgetful_ask (scope : Scope) (question : Question) :
    Forgetful scope (ask scope question) :=
  (steady_ask scope question).forgetful

end Node

/-! ## Sessions -/

inductive SessionEvent where
  | change (stack : Stack)
  | ask (question : Question)

/-- Each change of the stack only makes it grow. -/
def StackGrows : Stack → List SessionEvent → Prop
  | _, [] => True
  | stack, .change next :: rest => stack.GrowsTo next ∧ StackGrows next rest
  | stack, .ask _ :: rest => StackGrows stack rest

namespace Template

/-- The answers of one tree that keeps what it remembers between the questions. -/
def answers (template : Template) : Stack → Node → List SessionEvent → List Answer
  | _, _, [] => []
  | _, node, .change next :: rest => template.answers next node rest
  | stack, node, .ask question :: rest =>
    let (node, answer) := node.ask ⟨template.digests, stack⟩ question
    answer :: template.answers stack node rest

/-- The answers of trees that are parsed anew for each question. -/
def freshAnswers (template : Template) (raw : Json) :
    Stack → List SessionEvent → List (Except TemplateError Answer)
  | _, [] => []
  | _, .change next :: rest => template.freshAnswers raw next rest
  | stack, .ask question :: rest =>
    ((Node.parse template.version raw).map fun node =>
      (node.ask ⟨template.digests, stack⟩ question).2) :: template.freshAnswers raw stack rest

def after (template : Template) : Stack → Node → List SessionEvent → Stack × Node
  | stack, node, [] => (stack, node)
  | _, node, .change next :: rest => template.after next node rest
  | stack, node, .ask question :: rest =>
    template.after stack (node.ask ⟨template.digests, stack⟩ question).1 rest

theorem answers_of_faithful (template : Template) (raw : Json) (parsed node : Node)
    (read : Node.parse template.version raw = .ok parsed) (stack : Stack)
    (events : List SessionEvent) (grows : StackGrows stack events)
    (same : node.forget = parsed) (faithful : node.Faithful ⟨template.digests, stack⟩) :
    (template.answers stack node events).map .ok = template.freshAnswers raw stack events := by
  induction events generalizing stack node with
  | nil => rfl
  | cons event rest ih =>
    cases event with
    | change next =>
      -- Only here could a memory go wrong; what is final stays final as the stack grows.
      exact ih node next grows.2 same
        (Node.faithful_grows template.digests stack next grows.1 node faithful)
    | ask question =>
      obtain ⟨answer, kept⟩ := Node.forgetful_ask ⟨template.digests, stack⟩ question node faithful
      rw [answers, freshAnswers, read, List.map_cons, answer, same]
      rw [ih _ stack grows (kept.template.trans same) kept.faithful]
      rfl

/-- While the stack only grows, one tree answers every question as a freshly parsed one does. -/
theorem answers_eq_freshAnswers (template : Template) (raw : Json) (node : Node)
    (read : Node.parse template.version raw = .ok node) (stack : Stack)
    (events : List SessionEvent) (grows : StackGrows stack events) :
    (template.answers stack node events).map .ok = template.freshAnswers raw stack events := by
  have forgetful := Node.forget_parse template.version raw node read
  refine answers_of_faithful template raw node node read stack events grows forgetful ?_
  rw [← forgetful]
  exact Node.faithful_forget _ node

def serverAndVolume : Json :=
  .object [("list_join", .list [.string ",", .list
    [.object [("get_attr", .list [.string "server", .string "address"])],
      .object [("get_attr", .list [.string "volume", .string "size"])]]])]

def volumeOnly : Stack :=
  ⟨[], [("server", .pending "server"),
    ("volume", { Resource.created "volume" with attributes := [("size", .string "5")] })], [], none⟩

def volumeAndServer : Stack :=
  ⟨[], [("volume", { Resource.created "volume" with attributes := [("size", .string "5")] }),
    ("server", { Resource.created "server" with attributes := [("address", .string "10.0.0.2")] })],
    [], none⟩

theorem volumeOnly_growsTo : volumeOnly.GrowsTo volumeAndServer := by
  refine ⟨by simp [volumeOnly, Stack.parameter?], by simp [volumeOnly, Stack.file?],
    by simp [volumeOnly], ?_⟩
  intro key resource found readable
  simp only [volumeOnly, Stack.resource?, Entries.get?_cons, Entries.get?_nil] at found
  split at found
  · cases found
    cases readable
  · split at found
    · rename_i same
      cases found
      subst same
      exact ⟨_, rfl, rfl, rfl, rfl⟩
    · cases found

theorem answers_as_server_comes_up :
    let events : List SessionEvent := [.ask (.resolve []), .ask .dependencies,
      .change volumeAndServer, .ask (.validate []), .ask (.resolve [.string "args"])]
    StackGrows volumeOnly events ∧
      ∃ node, Node.parse .v20161014 serverAndVolume = .ok node ∧
        (answers ⟨.v20161014, []⟩ volumeOnly node events).map .ok =
          freshAnswers ⟨.v20161014, []⟩ serverAndVolume volumeOnly events := by
  have grows : StackGrows volumeOnly [.ask (.resolve []), .ask .dependencies,
      .change volumeAndServer, .ask (.validate []), .ask (.resolve [.string "args"])] :=
    ⟨volumeOnly_growsTo, trivial⟩
  exact ⟨grows, _, rfl, answers_eq_freshAnswers ⟨.v20161014, []⟩ serverAndVolume _ rfl volumeOnly _
    grows⟩

end Template

end Orchestration
