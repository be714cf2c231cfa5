import Lineage.Proofs.Scan.Course

namespace Lineage

structure Watched (σ ο : Type) where
  seen : List Event
  answer : Option ο
  state : σ

namespace Visitor

variable {σ ο : Type}

def react (v : Visitor σ ο) : Event → σ → Option ο × σ
  | .enter index, state => v.enter index state
  | .records index source slots, state => v.receive index source slots state
  | .failure _ _, state => (none, state)

def watch (v : Visitor σ ο) : List Event → σ → Watched σ ο
  | [], state => ⟨[], none, state⟩
  | event :: rest, state =>
    match v.react event state with
    | (some answer, state) => ⟨[event], some answer, state⟩
    | (none, state) =>
      let later := v.watch rest state
      { later with seen := event :: later.seen }

theorem watch_cons_of_answer {v : Visitor σ ο} {event : Event} {rest : List Event}
    {state after : σ} {answer : ο} (h : v.react event state = (some answer, after)) :
    v.watch (event :: rest) state = ⟨[event], some answer, after⟩ := by
  rw [watch, h]

theorem watch_cons_of_silence {v : Visitor σ ο} {event : Event} {rest : List Event}
    {state after : σ} (h : v.react event state = (none, after)) :
    v.watch (event :: rest) state =
      ⟨event :: (v.watch rest after).seen, (v.watch rest after).answer,
        (v.watch rest after).state⟩ := by
  rw [watch, h]

theorem watch_append_of_answer {v : Visitor σ ο} {first : List Event} {state : σ} {answer : ο}
    (answered : (v.watch first state).answer = some answer) (rest : List Event) :
    v.watch (first ++ rest) state = v.watch first state := by
  induction first generalizing state with
  | nil => cases answered
  | cons event first ih =>
    rcases h : v.react event state with ⟨_ | _, after⟩
    · rw [watch_cons_of_silence h] at answered
      rw [List.cons_append, watch_cons_of_silence h, watch_cons_of_silence h, ih answered]
    · rw [List.cons_append, watch_cons_of_answer h, watch_cons_of_answer h]

theorem watch_append_of_silence {v : Visitor σ ο} {first : List Event} {state : σ}
    (silent : (v.watch first state).answer = none) (rest : List Event) :
    v.watch (first ++ rest) state =
      let later := v.watch rest (v.watch first state).state
      ⟨first ++ later.seen, later.answer, later.state⟩ := by
  induction first generalizing state with
  | nil => rfl
  | cons event first ih =>
    rcases h : v.react event state with ⟨_ | _, after⟩
    · rw [watch_cons_of_silence h] at silent
      rw [List.cons_append, watch_cons_of_silence h, watch_cons_of_silence h, ih silent]
      rfl
    · rw [watch_cons_of_answer h] at silent
      cases silent

theorem seen_of_silence {v : Visitor σ ο} {events : List Event} {state : σ}
    (silent : (v.watch events state).answer = none) : (v.watch events state).seen = events := by
  have whole := watch_append_of_silence silent []
  rw [List.append_nil] at whole
  rw [whole]
  exact List.append_nil events

end Visitor

namespace Walk

variable {σ ο α β : Type} {s : Scan σ ο}

/-- How a walk from `p` ends when its visitor watches a passage: with the visitor's answer, else as
    the passage does. -/
def Reaches (s : Scan σ ο) (p : Progress σ) (passage : Passage α)
    (result : EStateM.Result (Exit ο) (Progress σ) α) : Prop :=
  let watched := s.visitor.watch passage.events p.state
  ∃ memo : Memo, memo.Faithful s.scanner ∧
    match watched.answer with
    | some answer => ∃ index,
      result = .error (.stopped answer) ⟨memo, index, watched.state, p.log ++ watched.seen⟩
    | none =>
      result = (ask passage.answer).run ⟨memo, passage.index, watched.state, p.log ++ watched.seen⟩

/-- From anything faithfully remembered, a walk shows its visitor what happens on a course until the
    visitor gives an answer. -/
def Follows (s : Scan σ ο) (w : Walk σ ο α) (c : Course α) : Prop :=
  ∀ p : Progress σ, p.memo.Faithful s.scanner → Reaches s p (c.run p.index) (w.run p)

theorem Reaches.of_answer {p : Progress σ} {passage : Passage α} {first rest : List Event}
    {answer : ο} {memo : Memo} {index : Nat} (events : passage.events = first ++ rest)
    (answered : (s.visitor.watch first p.state).answer = some answer)
    (faithful : memo.Faithful s.scanner) :
    Reaches s p passage (.error (.stopped answer) ⟨memo, index,
      (s.visitor.watch first p.state).state, p.log ++ (s.visitor.watch first p.state).seen⟩) := by
  refine ⟨memo, faithful, ?_⟩
  rw [events, Visitor.watch_append_of_answer answered, answered]
  exact ⟨index, rfl⟩

theorem Reaches.cases {p : Progress σ} {passage : Passage α}
    {result : EStateM.Result (Exit ο) (Progress σ) α} (reached : Reaches s p passage result) :
    (∃ answer memo index, (s.visitor.watch passage.events p.state).answer = some answer ∧
      memo.Faithful s.scanner ∧
      result = .error (.stopped answer) ⟨memo, index,
        (s.visitor.watch passage.events p.state).state,
        p.log ++ (s.visitor.watch passage.events p.state).seen⟩) ∨
    (∃ memo, (s.visitor.watch passage.events p.state).answer = none ∧
      memo.Faithful s.scanner ∧
      result = (ask passage.answer).run ⟨memo, passage.index,
        (s.visitor.watch passage.events p.state).state, p.log ++ passage.events⟩) := by
  obtain ⟨memo, faithful, ended⟩ := reached
  cases answered : (s.visitor.watch passage.events p.state).answer with
  | some answer =>
    simp only [answered] at ended
    obtain ⟨index, ended⟩ := ended
    exact .inl ⟨answer, memo, index, rfl, faithful, ended⟩
  | none =>
    simp only [answered, Visitor.seen_of_silence answered] at ended
    exact .inr ⟨memo, rfl, faithful, ended⟩

theorem follows_of_still {w : Walk σ ο α} {answer : Except QueryError α}
    (still : ∀ p : Progress σ, p.memo.Faithful s.scanner → ∃ memo : Memo,
      memo.Faithful s.scanner ∧ w.run p = (ask answer).run { p with memo := memo }) :
    Follows s w (Course.ask answer) := by
  intro p faithful
  obtain ⟨memo, kept, ran⟩ := still p faithful
  refine ⟨memo, kept, ?_⟩
  simp only [Course.ask, Visitor.watch, List.append_nil]
  exact ran

theorem Follows.pure (a : α) : Follows s (pure a) (pure a) :=
  follows_of_still fun p faithful => ⟨p.memo, faithful, rfl⟩

theorem Follows.ask (answer : Except QueryError α) :
    Follows s (ask answer) (Course.ask answer) :=
  follows_of_still fun p faithful => ⟨p.memo, faithful, rfl⟩

theorem Follows.consult {question : Recall α} {answer : Except QueryError α}
    (settles : question.Settles s.scanner answer) :
    Follows s (consult question) (Course.ask answer) := by
  refine follows_of_still fun p faithful => ?_
  obtain ⟨memo, kept, ran⟩ := settles p.memo faithful
  refine ⟨memo, kept, ?_⟩
  simp only [Walk.consult, ran]
  cases answer <;> rfl

theorem Follows.index : Follows s index Course.index := by
  intro p faithful
  refine ⟨p.memo, faithful, ?_⟩
  simp only [Course.index, Visitor.watch, List.append_nil]
  rfl

theorem Follows.advance : Follows s advance Course.advance := by
  intro p faithful
  refine ⟨p.memo, faithful, ?_⟩
  simp only [Course.advance, Visitor.watch, List.append_nil]
  rfl

theorem Follows.report (on : Element) (e : QueryError) :
    Follows s (report on e) (Course.report on e) :=
  fun p faithful => ⟨p.memo, faithful, rfl⟩

theorem Follows.callback (event : Event) :
    Follows s (callback event (s.visitor.react event)) (Course.happen event) := by
  intro p faithful
  refine ⟨p.memo, faithful, ?_⟩
  simp only [Course.happen, Visitor.watch, Walk.callback]
  rcases s.visitor.react event p.state with ⟨_ | answer, state⟩
  · rfl
  · exact ⟨p.index, rfl⟩

theorem Follows.enter (index : Nat) : Follows s (s.enter index) (Course.enter index) :=
  .callback (.enter index)

theorem Follows.deliver (index : Nat) (source : Element) (slots : List Slot) :
    Follows s (s.deliver index source slots) (Course.deliver index source slots) :=
  .callback (.records index source slots)

theorem Follows.bind {w : Walk σ ο α} {c : Course α} {next : α → Walk σ ο β}
    {after : α → Course β} (first : Follows s w c) (rest : ∀ a, Follows s (next a) (after a)) :
    Follows s (w >>= next) (c >>= after) := by
  intro p faithful
  rcases (first p faithful).cases with
    ⟨answer, memo, index, answered, kept, ran⟩ | ⟨memo, silent, kept, ran⟩
  · rw [Trial.run_bind_of_error ran]
    cases ended : (c.run p.index).answer with
    | error e =>
      rw [Course.run_bind_of_error ended]
      exact .of_answer (List.append_nil _).symm answered kept
    | ok a =>
      rw [Course.run_bind_of_ok ended]
      exact .of_answer rfl answered kept
  · cases ended : (c.run p.index).answer with
    | error e =>
      rw [ended] at ran
      rw [Trial.run_bind_of_error ran, Course.run_bind_of_error ended]
      refine ⟨memo, kept, ?_⟩
      simp only [silent, Visitor.seen_of_silence silent]
      rfl
    | ok a =>
      rw [ended] at ran
      rw [Trial.run_bind_of_ok ran, Course.run_bind_of_ok ended]
      let between : Progress σ := ⟨memo, (c.run p.index).index,
        (s.visitor.watch (c.run p.index).events p.state).state, p.log ++ (c.run p.index).events⟩
      obtain ⟨last, keptLast, ranLast⟩ := rest a between kept
      refine ⟨last, keptLast, ?_⟩
      simp only [Visitor.watch_append_of_silence silent, ← List.append_assoc]
      exact ranLast

theorem Follows.contain {w : Walk σ ο Unit} {c : Course Unit} (on : Element)
    (inner : Follows s w c) : Follows s (contain on w) (c.contain on) := by
  intro p faithful
  rcases (inner p faithful).cases with
    ⟨answer, memo, index, answered, kept, ran⟩ | ⟨memo, silent, kept, ran⟩
  · simp only [Walk.contain, ran]
    cases ended : (c.run p.index).answer with
    | error e =>
      rw [Course.run_contain_of_error ended]
      exact .of_answer rfl answered kept
    | ok a =>
      rw [Course.run_contain_of_ok ended]
      exact .of_answer (List.append_nil _).symm answered kept
  · simp only [Walk.contain, ran]
    cases ended : (c.run p.index).answer with
    | error e =>
      rw [Course.run_contain_of_error ended]
      refine ⟨memo, kept, ?_⟩
      simp only [Visitor.watch_append_of_silence silent]
      simp only [Visitor.watch, Visitor.react, ← List.append_assoc]
      rfl
    | ok a =>
      rw [Course.run_contain_of_ok ended]
      refine ⟨memo, kept, ?_⟩
      simp only [silent, Visitor.seen_of_silence silent, ended]
      rfl

theorem Follows.ite {condition : Prop} [Decidable condition] {v w : Walk σ ο α} {c d : Course α}
    (yes : condition → Follows s v c) (no : ¬condition → Follows s w d) :
    Follows s (if condition then v else w) (if condition then c else d) := by
  split
  · exact yes ‹_›
  · exact no ‹_›

theorem Follows.forM {walk : α → Walk σ ο Unit} {course : α → Course Unit}
    (each : ∀ a, Follows s (walk a) (course a)) (as : List α) :
    Follows s (as.forM walk) (as.forM course) := by
  induction as with
  | nil => exact .pure ()
  | cons a as ih => exact (each a).bind fun _ => ih

end Walk

namespace Scan

open Walk

variable {σ ο : Type} (s : Scan σ ο)

theorem declared_follows (e : Element) : Follows s (s.declared e) (s.terrain.declared e) := by
  refine .bind ?_ fun owner => .ite (fun _ => .pure []) fun _ => .consult (s.scanner.declared_settles e)
  cases e <;> exact .ask _

theorem element_follows (e : Element) : Follows s (s.element e) (s.terrain.element e) :=
  .contain e <| (Follows.enter 0).bind fun _ => (s.declared_follows e).bind fun slots =>
    .deliver 0 e slots

theorem claimsFor_follows (source : TypeId) (declared : List Slot) (claims : Option Claims) :
    Follows s (s.claimsFor source declared claims)
      (s.terrain.claimsFor source declared claims) := by
  cases claims with
  | some claims => exact .pure _
  | none => exact .ite (fun _ => .pure none) fun _ => (Follows.ask _).bind fun _ => .pure _

theorem inheritedLevel_follows (source id : TypeId) (index : Nat) (claims : Option Claims) :
    Follows s (s.inheritedLevel source id index claims)
      (s.terrain.inheritedLevel source id index claims) := by
  refine .ite (fun _ => .pure claims) fun _ =>
    (Follows.consult (s.scanner.declared_settles (.type id))).bind fun declared =>
    (s.claimsFor_follows source declared claims).bind fun found => ?_
  cases found with
  | some claims => exact (Follows.deliver _ _ _).bind fun _ => .pure _
  | none => exact (Follows.deliver _ _ _).bind fun _ => .pure none

theorem properSuperclass_follows (id : TypeId) :
    Follows s (s.properSuperclass id) (s.terrain.properSuperclass id) :=
  (Follows.ask _).bind fun _ => .pure _

theorem inheritedFrom_follows (source : TypeId) (fuel : Nat) (id : TypeId) (index : Nat)
    (claims : Option Claims) :
    Follows s (s.inheritedFrom source fuel id index claims)
      (s.terrain.inheritedFrom source fuel id index claims) := by
  induction fuel generalizing id index claims with
  | zero => exact .pure ()
  | succ fuel ih =>
    refine .contain _ <| .ite (fun _ => .pure ()) fun _ => (Follows.ask _).bind fun plain =>
      .ite (fun _ => .pure ()) fun _ => (Follows.enter index).bind fun _ =>
      (s.inheritedLevel_follows source id index claims).bind fun left =>
      (Follows.ask _).bind fun above => ?_
    cases above with
    | some above => exact ih above (index + 1) left
    | none => exact .pure ()

theorem inheritedType_follows (fuel : Nat) (source : TypeId) :
    Follows s (s.inheritedType fuel source) (s.terrain.inheritedType fuel source) :=
  .contain _ <| (Follows.ask _).bind fun _ => .ite (fun _ => s.element_follows _) fun _ =>
    s.inheritedFrom_follows source fuel source 0 none

section

variable {walk : TypeId → Walk σ ο Unit} {course : TypeId → Course Unit}
  {rest : Walk σ ο Unit} {after : Course Unit}

theorem sideways_follows (each : ∀ id, Follows s (walk id) (course id))
    (later : Follows s rest after) (interfaces : Bool) (id : TypeId) :
    Follows s
      (if interfaces = true then
        Walk.ask (s.scanner.catalog.interfaces id) >>= fun above =>
          List.forM above walk >>= fun _ => rest
      else rest)
      (s.terrain.sideways interfaces course id >>= fun _ => after) := by
  cases interfaces with
  | false => exact later
  | true =>
    show Follows s _ ((Course.ask _ >>= fun above => List.forM above course) >>= fun _ => after)
    rw [bind_assoc]
    exact (Follows.ask _).bind fun above => (Follows.forM each above).bind fun _ => later

theorem upward_follows {arrive : Option TypeId → Walk σ ο Unit}
    (ends : Follows s (arrive none) after)
    (goes : ∀ above, Follows s (arrive (some above)) (course above >>= fun _ => after))
    (id : TypeId) :
    Follows s (s.properSuperclass id >>= arrive)
      (s.terrain.upward course id >>= fun _ => after) := by
  unfold Terrain.upward
  rw [bind_assoc]
  refine (s.properSuperclass_follows id).bind fun above => ?_
  cases above with
  | none => exact ends
  | some above => exact goes above

theorem outward_follows (each : ∀ id, Follows s (walk id) (course id)) (enclosing : Bool)
    (id : TypeId) :
    Follows s
      (if enclosing = true then
        match s.scanner.catalog.enclosing id with
        | .ok (some outer) => walk outer
        | .ok none => pure ()
        | .error e => report (.type id) e
      else pure ())
      (s.terrain.outward enclosing course id) := by
  refine .ite (fun _ => ?_) fun _ => .pure ()
  show Follows s _ (match s.scanner.catalog.enclosing id with
    | .ok (some outer) => course outer
    | .ok none => pure ()
    | .error e => Course.report (.type id) e)
  rcases s.scanner.catalog.enclosing id with e | _ | outer
  · exact .report _ e
  · exact .pure ()
  · exact each outer

end

theorem typeFrom_follows (reach : Reach) (fuel : Nat) (id : TypeId) :
    Follows s (s.typeFrom reach fuel id) (s.terrain.typeFrom reach fuel id) := by
  induction fuel generalizing id with
  | zero => exact .pure ()
  | succ fuel ih =>
    have outward := s.outward_follows ih reach.enclosing id
    exact .contain _ <| Follows.index.bind fun _ => (Follows.enter _).bind fun _ =>
      (Follows.ask _).bind fun _ => .ite (fun _ => .pure ()) fun _ =>
      (s.declared_follows _).bind fun _ => Follows.index.bind fun _ =>
      (Follows.deliver _ _ _).bind fun _ => Follows.advance.bind fun _ =>
      s.sideways_follows ih
        (s.upward_follows outward (fun above => (ih above).bind fun _ => outward) id)
        reach.interfaces id

theorem typeWalk_follows (fuel : Nat) (id : TypeId) (strategy : Strategy) :
    Follows s (s.typeWalk fuel id strategy) (s.terrain.typeWalk fuel id strategy) := by
  cases strategy with
  | direct => exact s.element_follows (.type id)
  | inherited => exact s.inheritedType_follows fuel id
  | superclass | hierarchy | enclosing => exact s.typeFrom_follows _ fuel id

theorem memberRecords_follows (index : Nat) (id : MemberId) :
    Follows s (s.memberRecords index id) (s.terrain.memberRecords index id) :=
  (s.declared_follows _).bind fun _ => (Follows.deliver _ _ _).bind fun _ =>
    (Follows.ask _).bind fun _ => .ite (fun _ => .pure ()) fun _ =>
    (s.declared_follows _).bind fun _ => .deliver _ _ _

theorem showOverridden_follows (member : MemberId) (called : Bool) (candidates : List MemberId) :
    Follows s (s.showOverridden member called candidates)
      (s.terrain.showOverridden member called candidates) := by
  induction candidates generalizing called with
  | nil => exact .pure called
  | cons candidate rest ih =>
    exact (Follows.ask _).bind fun _ => .ite
      (fun _ => Follows.index.bind fun _ => (s.memberRecords_follows _ candidate).bind fun _ =>
        ih true)
      fun _ => ih called

theorem memberLevel_follows (member : MemberId) (declaring id : TypeId) :
    Follows s (s.memberLevel member declaring id) (s.terrain.memberLevel member declaring id) :=
  .ite
    (fun _ => Follows.index.bind fun _ => (s.memberRecords_follows _ member).bind fun _ => .pure true)
    fun _ => (Follows.ite (fun _ => .pure []) fun _ => .consult (s.scanner.baseMembers_settles id)).bind
      fun _ => s.showOverridden_follows member false _

theorem memberFrom_follows (interfaces : Bool) (member : MemberId) (fuel : Nat) (id : TypeId) :
    Follows s (s.memberFrom interfaces member fuel id)
      (s.terrain.memberFrom interfaces member fuel id) := by
  induction fuel generalizing id with
  | zero => exact .pure ()
  | succ fuel ih =>
    refine .contain _ <| Follows.index.bind fun _ => (Follows.enter _).bind fun _ =>
      (Follows.ask _).bind fun _ => .ite (fun _ => .pure ()) fun _ => (Follows.ask _).bind fun decl =>
      (s.memberLevel_follows member decl.declaring id).bind fun called =>
      .ite (fun _ => .pure ()) fun _ => ?_
    have goes (above : TypeId) : Follows s (s.memberFrom interfaces member fuel above)
        (s.terrain.memberFrom interfaces member fuel above >>= fun _ => pure ()) := by
      rw [bind_pure_unit]
      exact ih above
    rw [← bind_pure_unit (x := s.terrain.upward _ id)]
    cases called
    case' true => refine Follows.advance.bind fun _ => ?_
    all_goals exact s.sideways_follows ih (s.upward_follows (.pure ()) goes id) interfaces id

theorem memberUpward_follows (interfaces : Bool) (fuel : Nat) (id : MemberId) :
    Follows s (s.memberUpward interfaces fuel id) (s.terrain.memberUpward interfaces fuel id) := by
  unfold memberUpward Terrain.memberUpward terrain
  cases s.scanner.catalog.memberDecl id with
  | ok decl => exact s.memberFrom_follows interfaces id fuel decl.declaring
  | error e => exact .report _ e

theorem memberWalk_follows (fuel : Nat) (id : MemberId) (strategy : Strategy) :
    Follows s (s.memberWalk fuel id strategy) (s.terrain.memberWalk fuel id strategy) := by
  cases strategy with
  | direct | inherited =>
    exact .contain _ <| (Follows.enter 0).bind fun _ => s.memberRecords_follows 0 id
  | superclass | hierarchy | enclosing => exact s.memberUpward_follows _ fuel id

theorem walk_follows (fuel : Nat) (strategy : Strategy) (source : Element) :
    Follows s (s.walk fuel strategy source) (s.terrain.course fuel strategy source) := by
  cases source with
  | type id => exact s.typeWalk_follows fuel id strategy
  | member id => exact s.memberWalk_follows fuel id strategy
  | parameter owner index => exact s.element_follows _

def watched (s : Scan σ ο) (strategy : Strategy) (source : Element) : Watched σ ο :=
  s.visitor.watch (s.terrain.events s.depth strategy source) s.visitor.start

/-- What a walk comes to that shows its visitor what happens on a course. -/
theorem outcome_of_follows {walk : Walk σ ο Unit} {course : Course Unit}
    (follows : Follows s walk course) {memo : Memo} (faithful : memo.Faithful s.scanner) :
    let watched := s.visitor.watch (course.run 0).events s.visitor.start
    ∃ after : Memo, after.Faithful s.scanner ∧
      s.conclude (walk.run (s.begin memo)) =
        ⟨s.visitor.finish watched.answer watched.state, watched.seen, after⟩ := by
  intro watched
  rcases (follows (s.begin memo) faithful).cases with
    ⟨answer, after, index, answered, kept, ran⟩ | ⟨after, silent, kept, ran⟩
  · refine ⟨after, kept, ?_⟩
    have answered : watched.answer = some answer := answered
    simp only [ran, conclude, answered]
    rfl
  · refine ⟨after, kept, ?_⟩
    have silent : watched.answer = none := silent
    have seen : watched.seen = (course.run 0).events := Visitor.seen_of_silence silent
    simp only [ran, silent, seen]
    cases (course.run (s.begin memo).index).answer <;> rfl

/-- The outcome of a scan from anything faithfully remembered. -/
theorem run_eq (strategy : Strategy) (source : Element) {memo : Memo}
    (faithful : memo.Faithful s.scanner) :
    ∃ after : Memo, after.Faithful s.scanner ∧
      s.run strategy source memo =
        ⟨s.visitor.finish (s.watched strategy source).answer (s.watched strategy source).state,
          (s.watched strategy source).seen, after⟩ :=
  s.outcome_of_follows (s.walk_follows s.depth strategy source) faithful

end Scan

end Lineage
