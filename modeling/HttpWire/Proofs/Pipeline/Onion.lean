import Mathlib.Data.List.Induction
import HttpWire.Proofs.Field.Value
import HttpWire.Proofs.Pipeline.SinglePass

/-!
# The order in which a pipeline is passed

The stages of a pipeline of single passes are passed as far as the first that does not go on
(`Passage`), and each of them is a layer: what it does in front of what follows it, and what it does
behind.

Running the pipeline is doing what stands in front, from the first layer to the last, and then what
stands behind, from the last layer to the first (`Pipeline.run_of_passage`).  The marks that traced
stages leave show the same way (`Pipeline.run_traced_of_passage`).

What follows a stage is run to its end.  A stage that stops it before that is not described here.
-/

namespace HttpWire

/-- What a stage has done when the pipeline has been passed. -/
structure Layer where
  /-- What is done in front of what follows. -/
  before : List Act
  /-- What is done behind it. -/
  after : List Act
  /-- The context in which the stage is left. -/
  left : Context

/-- The way of a context through stages: each of them is entered in its turn, and the first that
does not go on is the last that is entered. -/
inductive Passage : List SinglePass → Context → List Layer → Context → Prop
  | through {c} : Passage [] c [] c
  | ends {m rest c c' acts} (h : m.turn rest.isEmpty c = .ends c' acts) :
    Passage (m :: rest) c [⟨acts, [], c'⟩] c'
  | goesOn {m rest c c₁ c₂ acts behind layers} (h : m.turn rest.isEmpty c = .goesOn c₁ acts behind)
    (hrest : Passage rest c₁ layers c₂) :
    Passage (m :: rest) c (⟨acts, (behind c₂).2, (behind c₂).1⟩ :: layers) (behind c₂).1

/-- Every context makes its way. -/
theorem exists_passage (stages : List SinglePass) (c : Context) :
    ∃ layers c', Passage stages c layers c' := by
  induction stages generalizing c with
  | nil => exact ⟨[], c, .through⟩
  | cons m rest ih =>
    cases h : m.turn rest.isEmpty c with
    | ends c' acts => exact ⟨_, _, .ends h⟩
    | goesOn c₁ acts behind =>
      obtain ⟨layers, c₂, hrest⟩ := ih c₁
      exact ⟨_, _, .goesOn h hrest⟩

/-- There is one way through stages. -/
theorem Passage.unique {stages : List SinglePass} {c c' c'' : Context} {layers layers' : List Layer}
    (h : Passage stages c layers c') (h' : Passage stages c layers' c'') :
    layers = layers' ∧ c' = c'' := by
  induction h generalizing layers' c'' with
  | through =>
    cases h'
    exact ⟨rfl, rfl⟩
  | ends hturn =>
    cases h' with
    | ends hturn' =>
      rw [hturn] at hturn'
      cases hturn'
      exact ⟨rfl, rfl⟩
    | goesOn hturn' _ =>
      rw [hturn] at hturn'
      cases hturn'
  | goesOn hturn _ ih =>
    cases h' with
    | ends hturn' =>
      rw [hturn] at hturn'
      cases hturn'
    | goesOn hturn' hrest' =>
      rw [hturn] at hturn'
      cases hturn'
      obtain ⟨rfl, rfl⟩ := ih hrest'
      exact ⟨rfl, rfl⟩

namespace Pipeline

variable {stages : List SinglePass} {c c' : Context} {layers : List Layer}

/-! ### Passing the stages -/

/-- Stages in front of more stages are stages in front of what follows them. -/
theorem nextWith_append (inner : Next) (xs ys : List Middleware) :
    nextWith inner (xs ++ ys) = nextWith (nextWith inner ys) xs := by
  induction xs with
  | nil => rfl
  | cons m xs ih => rw [List.cons_append, nextWith, ih, nextWith]

theorem isEmpty_nextWith (ms : List Middleware) : (nextWith .done ms).isEmpty = ms.isEmpty := by
  cases ms <;> rfl

/-- A stage is passed as its turn says. -/
theorem run_nextWith_cons (m : SinglePass) (rest : List Middleware) (c : Context) :
    (nextWith .done (m.toMiddleware :: rest)).run c =
      (m.turn rest.isEmpty c).run (nextWith .done rest).run := by
  rw [← isEmpty_nextWith]
  exact m.handle_eq _ c

/-- **What is done on the way** is what stands in front, layer by layer, and then what stands
behind, in the reverse order. -/
theorem run_of_passage (h : Passage stages c layers c') :
    (nextWith .done (stages.map SinglePass.toMiddleware)).run c =
      (c', layers.flatMap Layer.before ++ layers.reverse.flatMap Layer.after) := by
  induction h with
  | through => rfl
  | @ends m rest c c' acts h =>
    rw [List.map_cons, run_nextWith_cons, List.isEmpty_map, h]
    simp [Turn.run]
  | @goesOn m rest c c₁ c₂ acts behind layers h _ ih =>
    rw [List.map_cons, run_nextWith_cons, List.isEmpty_map, h]
    simp [Turn.run, ih]

/-! ### Marks on the way -/

/-- The stages between marks of entry and of leaving that are numbered from `i`. -/
def traced : Nat → List SinglePass → List Middleware
  | _, [] => []
  | i, m :: rest => .traced i m.handle :: traced (i + 1) rest

/-- What is done in front, behind the mark of entry.  So many stages there are in all. -/
def entering (count : Nat) (l : Layer × Nat) : List Act :=
  .mark (.entered l.2 (l.2 + 1 == count)) :: l.1.before

/-- What is done behind, and the mark of leaving. -/
def leaving (l : Layer × Nat) : List Act :=
  l.1.after ++ [.mark (.left l.2 (l.1.left.response.map (·.status)))]

theorem isEmpty_traced (i : Nat) (stages : List SinglePass) :
    (traced i stages).isEmpty = stages.isEmpty := by
  cases stages <;> rfl

/-- A traced stage leaves its marks around its turn. -/
theorem run_traced_cons (i : Nat) (m : SinglePass) (rest : List SinglePass) (c : Context) :
    (nextWith .done (traced i (m :: rest))).run c =
      (let (c', acts) :=
        (m.turn rest.isEmpty c).run (nextWith .done (traced (i + 1) rest)).run
      (c', .mark (.entered i rest.isEmpty) :: acts ++
        [.mark (.left i (c'.response.map (·.status)))])) := by
  have hturn := run_nextWith_cons (m.traced i) (traced (i + 1) rest) c
  rw [isEmpty_traced] at hturn
  exact hturn.trans (Turn.run_between _ [.mark (.entered i rest.isEmpty)]
    (fun c => (c, [.mark (.left i (c.response.map (·.status)))])) (m.turn rest.isEmpty c))

/-- The last of the stages is the one that nothing follows. -/
theorem isLast_eq (i : Nat) (rest : List SinglePass) :
    (i + 1 == i + 1 + rest.length) = rest.isEmpty := by
  cases rest <;> simp

/-- **The marks show the way**: the stages are entered from the first to the last that is reached,
and left in the reverse order. -/
theorem run_traced_of_passage (h : Passage stages c layers c') (i : Nat) :
    (nextWith .done (traced i stages)).run c =
      (c', (layers.zipIdx i).flatMap (entering (i + stages.length)) ++
        (layers.zipIdx i).reverse.flatMap leaving) := by
  induction h generalizing i with
  | through => rfl
  | @ends m rest c c' acts h =>
    have hcount : i + (m :: rest).length = i + 1 + rest.length := Nat.add_right_comm i _ 1
    rw [run_traced_cons, h, hcount]
    simp [Turn.run, entering, leaving, isLast_eq]
  | @goesOn m rest c c₁ c₂ acts behind layers h _ ih =>
    have hcount : i + (m :: rest).length = i + 1 + rest.length := Nat.add_right_comm i _ 1
    rw [run_traced_cons, h, hcount]
    simp [Turn.run, ih, entering, leaving, isLast_eq]

/-! ### Building -/

/-- A call of the builder. -/
inductive Addition
  | first (m : SinglePass)
  | last (m : SinglePass)

/-- The pipeline with one more stage. -/
def add (p : Pipeline) : Addition → Pipeline
  | .first m => p.addFirst m.toMiddleware
  | .last m => p.addLast m.toMiddleware

/-- The pipeline that calls of the builder make. -/
def built (additions : List Addition) : Pipeline :=
  additions.foldl add {}

/-- The stage that goes to the front, if it is one. -/
def Addition.first? : Addition → Option SinglePass
  | .first m => some m
  | .last _ => none

/-- The stage that goes to the end, if it is one. -/
def Addition.last? : Addition → Option SinglePass
  | .first _ => none
  | .last m => some m

/-- The stages in their order: what was put in front, the latest first, and then what was put
behind. -/
def inOrder (additions : List Addition) : List SinglePass :=
  (additions.filterMap Addition.first?).reverse ++ additions.filterMap Addition.last?

/-- The builder puts the stages in their order. -/
theorem middleware_built (additions : List Addition) :
    (built additions).middleware = (inOrder additions).map SinglePass.toMiddleware := by
  induction additions using List.reverseRecOn with
  | nil => rfl
  | append_singleton additions a ih =>
    rw [built, List.foldl_append, ← built, List.foldl_cons, List.foldl_nil]
    cases a with
    | first m =>
      rw [add, addFirst, ih]
      simp [inOrder, Addition.first?, Addition.last?]
    | last m =>
      rw [add, addLast, ih]
      simp [inOrder, Addition.first?, Addition.last?]

example (a b d : SinglePass) : inOrder [.last a, .first b, .last d] = [b, a, d] := rfl

/-! ### The answer to what nothing answered -/

theorem response_notFound (rest : List Middleware) (c : Context) :
    (execute ⟨.notFound :: rest⟩ c).1.response =
      some ((execute ⟨rest⟩ c).1.response.getD
        (Middleware.notFoundResponse (execute ⟨rest⟩ c).1.request.path)) :=
  rfl

/-- **Pipelines are onions.**  A pipeline of stages that go on at most once does what its layers do
on the way in, and then what they do on the way out, in the reverse order; and marks around the
stages say the same.  Any stages in front of others run them as what is innermost.  With `notFound`
in front there is a response behind: that of the rest if it has one, and else one with the status
404. -/
theorem execute_onion :
    (∀ additions c, ∃ layers c', Passage (inOrder additions) c layers c' ∧
      (built additions).execute c =
        (c', layers.flatMap Layer.before ++ layers.reverse.flatMap Layer.after) ∧
      execute ⟨traced 0 (inOrder additions)⟩ c =
        (c', layers.zipIdx.flatMap (entering (inOrder additions).length) ++
          layers.zipIdx.reverse.flatMap leaving)) ∧
    (∀ xs ys, execute ⟨xs ++ ys⟩ =
      (nextWith { isEmpty := ys.isEmpty, run := execute ⟨ys⟩ } xs).run) ∧
    ∀ rest c, ∃ r, (execute ⟨.notFound :: rest⟩ c).1.response = some r ∧
      ((execute ⟨rest⟩ c).1.response = some r ∨
        (execute ⟨rest⟩ c).1.response = none ∧ r.status.code = 404) := by
  refine ⟨?_, ?_, ?_⟩
  · intro additions c
    obtain ⟨layers, c', h⟩ := exists_passage (inOrder additions) c
    have htraced := run_traced_of_passage h 0
    rw [Nat.zero_add] at htraced
    refine ⟨layers, c', h, ?_, htraced⟩
    rw [execute, middleware_built]
    exact run_of_passage h
  · intro xs ys
    have hinner : nextWith .done ys = { isEmpty := ys.isEmpty, run := execute ⟨ys⟩ } := by
      rw [← isEmpty_nextWith]
      rfl
    rw [execute, nextWith_append, hinner]
  · intro rest c
    rw [response_notFound]
    cases hresponse : (execute ⟨rest⟩ c).1.response with
    | some r => exact ⟨r, rfl, .inl rfl⟩
    | none => exact ⟨_, rfl, .inr ⟨rfl, rfl⟩⟩

/-- A pipeline that is built from both ends and stops midway: the stage that answers only requests
for another path goes on, the one behind it answers, and the last one is not entered. -/
theorem execute_onion_midway :
    let answer : Response := .ofText .ok "hi".toList
    let moment : FieldValue := .ofVisible "now".toList (by decide)
    let additions : List Addition :=
      [.last (.delay 10 5), .first .notFound, .last (.route 20 "/a".toList answer),
        .last (.respond 30 answer), .last (.pass 40), .first (.date moment)]
    let c : Context := .ofRequest
      { method := ⟨"GET".toList, by decide⟩, path := "/b".toList, query := {}, headers := {}
        protocol := "HTTP/1.1".toList, version := ⟨1, 1⟩, body := .empty } none
    ∃ layers c', Passage (inOrder additions) c layers c' ∧ layers.length = 5 ∧
      c'.response = some (answer.insert ⟨.date, moment⟩) ∧
      (built additions).execute c = (c',
        [.mark (.entered 10 false), .pause 5, .mark (.entered 20 false), .mark (.responded 30),
          .mark (.left 20 (some .ok)), .mark (.left 10 (some .ok))]) ∧
      execute ⟨traced 0 (inOrder additions)⟩ c = (c',
        [.mark (.entered 0 false), .mark (.entered 1 false), .mark (.entered 2 false),
          .mark (.entered 10 false), .pause 5, .mark (.entered 3 false),
          .mark (.entered 20 false), .mark (.entered 4 false), .mark (.responded 30),
          .mark (.left 4 (some .ok)), .mark (.left 20 (some .ok)), .mark (.left 3 (some .ok)),
          .mark (.left 10 (some .ok)), .mark (.left 2 (some .ok)), .mark (.left 1 (some .ok)),
          .mark (.left 0 (some .ok))]) := by
  intro answer moment additions c
  obtain ⟨layers, c', hpassage, hexecute, htraced⟩ := execute_onion.1 additions c
  have hway : Passage (inOrder additions) c _ _ :=
    .goesOn rfl (.goesOn rfl (.goesOn rfl (.goesOn rfl (.ends rfl))))
  obtain ⟨rfl, rfl⟩ := hpassage.unique hway
  exact ⟨_, _, hpassage, rfl, by decide, hexecute.trans (Prod.ext rfl (by decide)),
    htraced.trans (Prod.ext rfl (by decide))⟩

end Pipeline

end HttpWire
