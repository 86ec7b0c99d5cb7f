import Mathlib.Data.List.TakeWhile
import TypedProperties.Proofs.Include.Search
import TypedProperties.Proofs.Reading.Forbidden

/-! The settings of a stream: the first record of a property freezes them, and until then the first
directive that sets one of them counts. -/
namespace TypedProperties

variable {ρ : Type} [Variants ρ]

/-- What directives can only set before the first property. -/
structure StreamSettings where
  topic : Option Text
  description : Text
  propagate : Bool
  search : Search

def Progress.settings (p : Progress) : StreamSettings where
  topic := p.context.topic
  description := p.store.description
  propagate := p.context.propagate
  search := p.context.search.untraced

namespace Directive

variable {world : World} {p q : Progress} {e : Effect} {directive : Directive}

/-- Whether a directive belongs to a property, and so begins the records if none came before. -/
def begins : Directive → Bool
  | .description text => text ≠ []
  | .variantIf _ => true
  | .variantOnly _ => true
  | .includeFile _ _ => true
  | _ => false

def topic? : Directive → Option Text
  | .topic text => if text = [] then none else some text
  | _ => none

def config? : Directive → Option Text
  | .config text => some text
  | _ => none

theorem Does.started_eq (does : Does world p directive q e) :
    q.context.started = (p.context.started || directive.begins) := by
  cases does with
  | description some => simp [begins, some]
  | variantIf => simp [begins]
  | variantOnly => simp [begins]
  | includeFile => simp [begins, Context.start]
  | includeSkipped => simp [begins, Context.start]
  | noDescription => simp [begins]
  | _ => exact (Bool.or_false _).symm

theorem Does.topic_eq (does : Does world p directive q e) :
    q.context.topic = p.context.topic.or directive.topic? ∧
      q.context.expectedTopic = p.context.expectedTopic ∧
      (p.context.topic = none → ∀ t ∈ q.context.topic, ∀ expected ∈ p.context.expectedTopic, t = expected) := by
  cases does with
  | secondTopic _ some set => simp [topic?, some, set]
  | @topic topic _ some unset given =>
    refine ⟨by simp [topic?, some, unset], rfl, fun _ t set expected required => ?_⟩
    obtain rfl := Option.some.inj set
    exact (given expected required).symm
  | _ => simp_all [topic?, Context.start]

theorem Does.config_eq (does : Does world p directive q e) :
    q.context.configSeen = (p.context.configSeen || directive.config?.isSome) ∧
      q.store.description =
        if p.context.configSeen then p.store.description
        else directive.config?.getD p.store.description := by
  cases does with
  | config _ unset => simp [config?, unset]
  | secondConfig _ set => simp [config?, set]
  | _ => simp [config?, Context.start]

/-- Behind the first property, a directive names no topic, gives no description and leaves the settings
as they are. -/
theorem Does.late (does : Does world p directive q e) (started : p.context.started = true) :
    directive.topic? = none ∧ directive.config? = none ∧ q.settings = p.settings := by
  have late : p.context.started ≠ false := by simp [started]
  cases does with
  | emptyTopic early => exact absurd early late
  | secondTopic early => exact absurd early late
  | topic early => exact absurd early late
  | config early => exact absurd early late
  | secondConfig early => exact absurd early late
  | includeDirectory _ _ early => exact absurd early late
  | includePathVariable _ _ early => exact absurd early late
  | includeNoPropagate early => exact absurd early late
  | _ => exact ⟨rfl, rfl, rfl⟩

end Directive

namespace Line

variable {before after : List Line} {line : Line}

/-- Whether a line is a property record: a declaration, or a directive that belongs to a property. -/
def begins (line : Line) : Bool := line.isDeclaration || line.directive?.any Directive.begins

def topic? (line : Line) : Option Text := line.directive?.bind Directive.topic?

def config? (line : Line) : Option Text := line.directive?.bind Directive.config?

def early (lines : List Line) : List Line := lines.takeWhile fun line => !line.begins

theorem early_append_of_begun (begun : before.any begins = true) : early (before ++ after) = early before := by
  induction before with
  | nil => cases begun
  | cons first rest ih =>
    cases h : first.begins with
    | true => simp [early, h]
    | false =>
      have rest := ih (by simpa [h] using begun)
      simpa [early, h] using rest

theorem early_of_not_begun (idle : before.any begins = false) : early before = before := by
  rw [early, List.takeWhile_eq_self_iff]
  intro line mem
  simpa using List.any_eq_false.mp idle line mem

/-- What is first in the early lines, with one more line that only says something if it is early. -/
theorem findSome?_early_concat {α : Type} {f : Line → Option α}
    (late : before.any begins = true → f line = none) (record : line.begins = true → f line = none) :
    (early (before ++ [line])).findSome? f = ((early before).findSome? f).or (f line) := by
  cases begun : before.any begins with
  | true => rw [early_append_of_begun begun, late begun, Option.or_none]
  | false =>
    rw [early_of_not_begun begun]
    cases own : line.begins with
    | true =>
      have idle : ∀ l ∈ before, !l.begins := by simpa using begun
      have cut : early (before ++ [line]) = before := by
        rw [early, List.takeWhile_append_of_pos idle]
        simp [own]
      rw [cut, record own, Option.or_none]
    | false =>
      have whole : (before ++ [line]).any begins = false := by simp [begun, own]
      rw [early_of_not_begun whole, List.findSome?_append]
      simp

theorem silent_of_begins (record : line.begins = true) : line.topic? = none ∧ line.config? = none := by
  unfold topic? config?
  cases given : line.directive? with
  | none => exact ⟨rfl, rfl⟩
  | some directive =>
    obtain ⟨text, role, -⟩ := directive?_eq_some.mp given
    have record : directive.begins = true := by
      simpa [begins, isDeclaration_of_directive role, given] using record
    cases directive with
    | topic => cases record
    | config => cases record
    | _ => exact ⟨rfl, rfl⟩

end Line

namespace Reader

variable {nested : Reader ρ → Text → Outcome} {world : World} {r : Reader ρ} {p q : Progress} {line : Line}

theorem description_of_declare {text : Text} (done : r.declare p text = (q, none)) :
    q.store.description = p.store.description := by
  obtain ⟨d, -, ⟨-, rfl⟩ | ⟨-, shown⟩⟩ := declare_cases done
  · rfl
  · obtain ⟨segment, readout, store, replaced, -, -, put, rfl, -⟩ := exhibit_cases shown
    exact Store.description_of_put put

theorem description_of_includeFile {path : Text} (done : r.includeFile nested p path = .ok q) :
    q.store.description = p.store.description := by
  obtain ⟨store, topic, -, merged, -⟩ := includeFile_cases done
  exact Store.description_of_mergeEntries merged

/-- What a line makes of the settings of the stream. -/
structure Sets (p : Progress) (line : Line) (q : Progress) : Prop where
  started : q.context.started = (p.context.started || line.begins)
  topic : q.context.topic = p.context.topic.or line.topic?
  required : q.context.expectedTopic = p.context.expectedTopic
  expected : p.context.topic = none →
    ∀ t ∈ q.context.topic, ∀ expected ∈ p.context.expectedTopic, t = expected
  configSeen : q.context.configSeen = (p.context.configSeen || line.config?.isSome)
  description : q.store.description =
    if p.context.configSeen then p.store.description else line.config?.getD p.store.description
  late : p.context.started = true →
    line.topic? = none ∧ line.config? = none ∧ q.settings = p.settings

/-- A line that names no topic and gives no description may still begin the records. -/
theorem Sets.silent (started : q.context.started = (p.context.started || line.begins))
    (topic : line.topic? = none) (config : line.config? = none)
    (required : q.context.expectedTopic = p.context.expectedTopic)
    (configSeen : q.context.configSeen = p.context.configSeen) (settings : q.settings = p.settings) :
    Sets p line q := by
  obtain ⟨sameTopic, sameDescription, -, -⟩ := StreamSettings.mk.inj settings
  exact {
    started, required
    topic := by rw [topic, sameTopic, Option.or_none]
    expected := fun unset t set => by simp [sameTopic, unset] at set
    configSeen := by simp [config, configSeen]
    description := by simp [config, sameDescription]
    late := fun _ => ⟨topic, config, settings⟩ }

theorem Sets.declaration {text : Text} (role : Role.ofText line.text = .declaration text)
    (declared : r.declare (p.atLine line) text = (q, none)) : Sets p line q := by
  have none := Line.directive?_of_declaration role
  have begins : line.begins = true := by simp [Line.begins, Line.isDeclaration_of_declaration role]
  have description : q.store.description = p.store.description :=
    description_of_declare (p := p.atLine line) declared
  have settings : q.settings = p.settings := by
    rcases context_of_declare declared with ⟨-, same⟩ | ⟨-, same⟩ <;>
      simp only [Progress.settings, same, description] <;> rfl
  obtain ⟨started, required, configSeen⟩ : q.context.started = true ∧
      q.context.expectedTopic = p.context.expectedTopic ∧ q.context.configSeen = p.context.configSeen := by
    rcases context_of_declare declared with ⟨-, same⟩ | ⟨-, same⟩ <;> rw [same] <;> exact ⟨rfl, rfl, rfl⟩
  exact .silent (by simp [started, begins]) (by simp [Line.topic?, none]) (by simp [Line.config?, none])
    required configSeen settings

theorem Sets.directive {text : Text} {directive : Directive} {e : Effect}
    (role : Role.ofText line.text = .directive text) (read : Directive.ofText text = .ok directive)
    (does : Directive.Does world (p.atLine line) directive q e) : Sets p line q := by
  have given := Line.directive?_of_directive role read
  have begins : line.begins = directive.begins := by
    simp [Line.begins, Line.isDeclaration_of_directive role, given]
  have topic : line.topic? = directive.topic? := by simp [Line.topic?, given]
  have config : line.config? = directive.config? := by simp [Line.config?, given]
  obtain ⟨set, required, expected⟩ := does.topic_eq
  obtain ⟨configSeen, description⟩ := does.config_eq
  exact {
    started := begins ▸ does.started_eq
    topic := topic ▸ set
    required, expected
    configSeen := config ▸ configSeen
    description := config ▸ description
    late := fun started => topic ▸ config ▸ does.late started }

theorem sets_of_step {stop : Bool} (done : r.step nested world p line = .ok (q, stop)) : Sets p line q := by
  refine step_invariant (P := Sets p line) (fun role => ?comment) (fun role applied => ?directive)
    (fun behind taken => ?included) (fun role declared => .declaration role declared) done
  case comment =>
    have none := Line.directive?_of_comment role
    have idle := Line.isDeclaration_of_comment role
    exact .silent (by simp [Line.begins, none, idle]; rfl) (by simp [Line.topic?, none])
      (by simp [Line.config?, none]) rfl rfl rfl
  case directive =>
    obtain ⟨directive, read, does⟩ := Directive.applyText_eq_ok.mp applied
    exact .directive role read does
  case included q q' path =>
    obtain ⟨-, -, -, -, context, -⟩ := includeFile_cases taken
    have description := description_of_includeFile taken
    have settings : q'.settings = q.settings := by simp only [Progress.settings, context, description]
    exact {
      started := context ▸ behind.started
      topic := context ▸ behind.topic
      required := context ▸ behind.required
      expected := context ▸ behind.expected
      configSeen := context ▸ behind.configSeen
      description := description ▸ behind.description
      late := settings ▸ behind.late }

theorem settings_of_steps {broken : Bool} {lines : List Line} (started : p.context.started = true)
    (done : r.steps nested world broken p lines = .ok q) :
    q.context.started = true ∧ q.settings = p.settings := by
  refine steps_invariant (P := fun x => x.context.started = true ∧ x.settings = p.settings)
    (fun _ h stepped => ?_) ⟨started, rfl⟩ done
  have sets := sets_of_step stepped
  exact ⟨by simp [sets.started, h.1], (sets.late h.1).2.2.trans h.2⟩

/-- The settings come from the lines in front of the first property record. -/
structure Settled (start : Progress) (before : List Line) (p : Progress) : Prop where
  started : p.context.started = before.any Line.begins
  topic : p.context.topic = (Line.early before).findSome? Line.topic?
  required : p.context.expectedTopic = start.context.expectedTopic
  expected : ∀ t ∈ p.context.topic, ∀ expected ∈ p.context.expectedTopic, t = expected
  configSeen : p.context.configSeen = ((Line.early before).findSome? Line.config?).isSome
  description : p.store.description =
    ((Line.early before).findSome? Line.config?).getD start.store.description

variable {start : Progress} {before lines : List Line}

theorem Settled.step (h : Settled start before p) (sets : Sets p line q) :
    Settled start (before ++ [line]) q := by
  have late (begun : before.any Line.begins = true) := sets.late (h.started.trans begun)
  have topic := Line.findSome?_early_concat (fun begun => (late begun).1)
    fun record => (Line.silent_of_begins record).1
  have config := Line.findSome?_early_concat (fun begun => (late begun).2.1)
    fun record => (Line.silent_of_begins record).2
  refine ⟨?started, ?topic, sets.required.trans h.required, ?expected, ?configSeen, ?description⟩
  case started => simp [sets.started, h.started]
  case topic => rw [sets.topic, h.topic, topic]
  case expected =>
    cases unset : p.context.topic with
    | none => exact sets.required ▸ sets.expected unset
    | some seen =>
      rw [sets.topic, sets.required, unset, Option.some_or, ← unset]
      exact h.expected
  case configSeen => rw [sets.configSeen, h.configSeen, config, Option.isSome_or]
  case description =>
    rw [sets.description, h.configSeen, h.description, config]
    cases (Line.early before).findSome? Line.config? <;> rfl

theorem settled_of_passes {file : Option Text} {destination : Store}
    (passed : r.Passes nested world (r.begin file destination) before p) :
    Settled (r.begin file destination) before p :=
  Passes.history ⟨rfl, rfl, rfl, nofun, rfl, rfl⟩ (fun _ h done => h.step (sets_of_step done)) passed

theorem settled_of_executes {file : Option Text} {destination : Store}
    (executed : r.Executes nested world (r.begin file destination) lines before p) :
    Settled (r.begin file destination) before p := by
  cases executed with
  | whole passed => exact settled_of_passes passed
  | stopped passed stop =>
    obtain ⟨-, rfl⟩ := eq_of_stop stop
    obtain ⟨started, topic, required, expected, configSeen, description⟩ := settled_of_passes passed
    exact ⟨started, topic, required, expected, configSeen, description⟩

def bare (o : Outcome) : Outcome :=
  { o with result := o.result.map fun read => ({ read.1 with description := [] }, none) }

theorem includeFile_bare (nested : Reader ρ → Text → Outcome) (p : Progress) (path : Text) :
    r.includeFile (fun r path => bare (nested r path)) p path = r.includeFile nested p path := by
  unfold includeFile bare
  dsimp only
  cases (nested (r.forIncluded p.context) path).result <;> rfl

theorem run_bare (nested : Reader ρ → Text → Outcome) (file : Option Text) (destination : Store)
    (bytes : Bytes) :
    r.run (fun r path => bare (nested r path)) world file destination bytes =
      r.run nested world file destination bytes := by
  rw [run_eq, run_eq, steps_congr fun before line after q lines passed => ?_]
  rw [step_eq, step_eq]
  split
  · rfl
  · exact direct_congr rfl fun q path applied => includeFile_bare nested q path
  · rfl

/-- The first property record freezes the settings of a stream. From a point on where the records have
begun they stay begun, and no line that does not fail changes the topic, the description of the store,
whether includes inherit the search, or where they search. So a read that succeeds reports the first
topic that its lines name in front of the first record, which is the expected one if one is required,
and its store has the first description given there, or the one that it started with. The topics and
descriptions of included files do not show. -/
theorem stream_settings_freeze (nested : Reader ρ → Text → Outcome) (world : World) (r : Reader ρ)
    (file : Option Text) (destination : Store) (bytes : Bytes) :
    let start := r.begin file destination
    (∀ before p, r.Passes nested world start before p →
      p.context.started = before.any Line.begins) ∧
    (∀ p lines broken q, p.context.started = true → r.steps nested world broken p lines = .ok q →
      q.context.started = true ∧ q.settings = p.settings) ∧
    (∀ store topic, (r.run nested world file destination bytes).result = .ok (store, topic) →
      ∃ before p, r.Executes nested world start (Lines.ofBytes bytes).complete before p ∧
        topic = (Line.early before).findSome? Line.topic? ∧
        (∀ t ∈ topic, ∀ expected ∈ r.options.topic, t = expected) ∧
        store.description =
          ((Line.early before).findSome? Line.config?).getD start.store.description) ∧
    r.run (fun r path => bare (nested r path)) world file destination bytes =
      r.run nested world file destination bytes := by
  intro start
  refine ⟨fun before p passed => (settled_of_passes passed).started,
    fun p lines broken q => settings_of_steps, fun store topic done => ?_,
    run_bare nested file destination bytes⟩
  obtain ⟨p, stepped, -, rfl, rfl⟩ := run_eq_ok.mp done
  obtain ⟨before, executed⟩ := executes_of_steps stepped
  have settled := settled_of_executes executed
  have required : p.context.expectedTopic = r.options.topic := settled.required
  exact ⟨before, p, executed, settled.topic, required ▸ settled.expected, settled.description⟩

/-- A file with a topic and a description of its own, included by one with both. -/
theorem stream_settings_freeze_at_an_include :
    let file := Text.encode (Text.ofString "#@topic u\n#@config d\nx = 1\n")
    let world : World := ⟨⟨[([['i']], .file file)], [], []⟩, []⟩
    let nested := fun r path => runFile world 1 r .empty path
    let bytes := Text.encode (Text.ofString "#@topic t\n#@config c\n#@include i\nb = 2\n")
    let r := { Reader.standard with options := { Options.standard with topic := some ['t'] } }
    let start := r.begin none .empty
    let datum (c : Char) : Datum := ⟨.string [[c]] false, .scalar, false, []⟩
    let store := { (Store.empty.insert ['x'] (datum '1')).insert ['b'] (datum '2') with description := ['c'] }
    let before : List Line := [⟨Text.ofString "#@topic t", 1, 1⟩, ⟨Text.ofString "#@config c", 2, 2⟩]
    let include_i : Line := ⟨Text.ofString "#@include i", 3, 3⟩
    let p : Progress := ⟨{ start.context with location := ⟨none, none, 2⟩, topic := some ['t'], configSeen := true },
      { Store.empty with description := ['c'] }, []⟩
    let q : Progress := ⟨{ p.context with location := ⟨none, none, 3⟩, started := true },
      { Store.empty.insert ['x'] (datum '1') with description := ['c'] }, []⟩
    (r.Passes nested world start (before ++ [include_i]) q ∧
        q.context.started = (before ++ [include_i]).any Line.begins) ∧
      (∃ last, r.steps nested world false q [⟨Text.ofString "b = 2", 4, 4⟩] = .ok last ∧
        last.context.started = true ∧ last.settings = q.settings) ∧
      (r.run nested world none .empty bytes).result = .ok (store, some ['t']) ∧
      (∃ executed last, r.Executes nested world start (Lines.ofBytes bytes).complete executed last ∧
        some ['t'] = (Line.early executed).findSome? Line.topic? ∧
        ['c'] = ((Line.early executed).findSome? Line.config?).getD []) ∧
      r.run (fun r path => bare (nested r path)) world none .empty bytes = r.run nested world none .empty bytes := by
  intro file world nested bytes r start datum store before include_i p q
  obtain ⟨begun, frozen, reported, unseen⟩ := stream_settings_freeze nested world r none .empty bytes
  let titled : Progress := ⟨{ start.context with location := ⟨none, none, 1⟩, topic := some ['t'] }, .empty, []⟩
  have passed : r.Passes nested world start (before ++ [include_i]) q :=
    Passes.next (q := titled) (by decide +kernel)
      (Passes.next (q := p) (by decide +kernel) (.next (by decide +kernel) (.none q)))
  let last : Progress := ⟨{ q.context with location := ⟨none, none, 4⟩ }, store, []⟩
  have behind : r.steps nested world false q [⟨Text.ofString "b = 2", 4, 4⟩] = .ok last := by decide +kernel
  have done : (r.run nested world none .empty bytes).result = .ok (store, some ['t']) := by decide +kernel
  obtain ⟨executed, finish, executes, topic, -, description⟩ := reported store _ done
  exact ⟨⟨passed, begun _ q passed⟩, ⟨last, behind, frozen q _ false last rfl behind⟩, done,
    ⟨executed, finish, executes, topic, description⟩, unseen⟩

end Reader
end TypedProperties
