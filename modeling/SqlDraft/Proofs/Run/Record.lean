/-
**Reports of scopes, read off the events.**

What the calls said about a scope is read off the events in one way and off its outline in another
one. A record holds both together:

* `Report`: what was said about a scope, with the conditions in their places.
* `Report.Fits`: a group has its own conditions only, and no other scope has such.
* `Event.report`: what the events say about a scope.
* `Recorded`: the reports of all scopes are what the events say.
* `Recorded.joined`, `Recorded.united`, `Recorded.landed`, `Recorded.opened`: one more event.
-/

import Mathlib.Logic.Function.Basic
import SqlDraft.Proofs.Run.Story

namespace SqlDraft

/-- What was said about a scope. -/
structure Report where
  kind : ScopeKind
  members : List Landing := []
  filters : List Landing := []
  havings : List Landing := []
  /-- The joins with their conditions. -/
  joins : List (Slot × JoinKind × List Landing) := []
  unions : List (Slot × Bool) := []

namespace Report

/-- The report of a scope in which nothing was said. -/
def silent (kind : ScopeKind) : Report := { kind }

def joinSlots (report : Report) : List Slot := report.joins.map Prod.fst

/-- A report with one more join. -/
def joined (report : Report) (slot : Slot) (kind : JoinKind) : Report :=
  { report with joins := report.joins ++ [(slot, kind, [])] }

/-- A report with one more union. -/
def united (report : Report) (slot : Slot) (all : Bool) : Report :=
  { report with unions := report.unions ++ [(slot, all)] }

/-- What one condition adds to the conditions of a place. -/
def share (spot place : Spot) (landing : Landing) : List Landing :=
  if spot = place then [landing] else []

/-- The report of the scope with this root after a condition landed somewhere. -/
def landed (report : Report) (root : Slot) (spot : Spot) (landing : Landing) : Report :=
  { report with
    members := report.members ++ share spot (.group root) landing
    filters := report.filters ++ share spot (.filters root) landing
    havings := report.havings ++ share spot (.havings root) landing
    joins := report.joins.map fun join =>
      (join.1, join.2.1, join.2.2 ++ share spot (.join join.1) landing) }

/-- The places of conditions that belong to a scope. -/
def Has (report : Report) (root : Slot) (spot : Spot) : Prop :=
  spot = .group root ∨ spot = .filters root ∨ spot = .havings root ∨
    ∃ slot ∈ report.joinSlots, spot = .join slot

/-- Two reports have a place of conditions in common only by their scopes or by a join. -/
theorem Has.same_scope {report other : Report} {root found : Slot} {spot : Spot}
    (has : report.Has root spot) (hasToo : other.Has found spot) :
    root = found ∨ ∃ slot ∈ report.joinSlots, slot ∈ other.joinSlots := by
  rcases has with rfl | rfl | rfl | ⟨slot, inSlots, rfl⟩ <;>
    rcases hasToo with same | same | same | ⟨_, inOthers, same⟩ <;> cases same
  · exact Or.inl rfl
  · exact Or.inl rfl
  · exact Or.inl rfl
  · exact Or.inr ⟨slot, inSlots, inOthers⟩

/-- A group has no clauses, and only a group has conditions of its own. -/
structure Fits (report : Report) : Prop where
  bare : report.kind = .group →
    report.filters = [] ∧ report.havings = [] ∧ report.joins = []
  plain : report.kind ≠ .group → report.members = []

theorem share_of_ne {spot place : Spot} (different : spot ≠ place) (landing : Landing) :
    share spot place landing = [] :=
  if_neg different

theorem joinSlots_landed (report : Report) (root : Slot) (spot : Spot) (landing : Landing) :
    (report.landed root spot landing).joinSlots = report.joinSlots := by
  show List.map _ (List.map _ _) = _
  rw [List.map_map]
  rfl

theorem joinSlots_joined (report : Report) (slot : Slot) (kind : JoinKind) :
    (report.joined slot kind).joinSlots = report.joinSlots ++ [slot] := by
  show List.map _ (_ ++ _) = _
  rw [List.map_append]
  rfl

theorem fits_silent (kind : ScopeKind) : (silent kind).Fits where
  bare _ := ⟨rfl, rfl, rfl⟩
  plain _ := rfl

theorem Fits.joined {report : Report} (fits : report.Fits) (plain : report.kind ≠ .group)
    (slot : Slot) (kind : JoinKind) : (report.joined slot kind).Fits where
  bare group := absurd group plain
  plain := fits.plain

theorem Fits.landed {report : Report} {root : Slot} {spot : Spot} (fits : report.Fits)
    (suits : spot = .group root ↔ report.kind = .group) (landing : Landing) :
    (report.landed root spot landing).Fits := by
  refine ⟨fun group => ?_, fun plain => ?_⟩
  · obtain ⟨filters, havings, joins⟩ := fits.bare group
    obtain rfl := suits.mpr group
    have noFilter : Spot.group root ≠ .filters root := fun same => nomatch same
    have noHaving : Spot.group root ≠ .havings root := fun same => nomatch same
    unfold Report.landed
    rw [filters, havings, joins, share_of_ne noFilter, share_of_ne noHaving]
    exact ⟨rfl, rfl, rfl⟩
  · have away : spot ≠ .group root := fun here => plain (suits.mp here)
    unfold Report.landed
    rw [fits.plain plain, share_of_ne away]
    rfl

/-- A condition that landed in another scope is not seen in a report. -/
theorem landed_eq_self {report : Report} {root : Slot} {spot : Spot} {landing : Landing}
    (elsewhere : ¬ report.Has root spot) : report.landed root spot landing = report := by
  unfold Has at elsewhere
  rw [not_or, not_or, not_or] at elsewhere
  obtain ⟨group, filters, havings, joins⟩ := elsewhere
  have same : report.joins.map (fun join =>
      (join.1, join.2.1, join.2.2 ++ share spot (.join join.1) landing)) = report.joins := by
    refine (List.map_congr_left fun join member => ?_).trans (List.map_id report.joins)
    have away : spot ≠ .join join.1 := fun here =>
      joins ⟨join.1, List.mem_map_of_mem member, here⟩
    rw [share_of_ne away, List.append_nil]
    rfl
  unfold landed
  rw [same, share_of_ne group, share_of_ne filters, share_of_ne havings, List.append_nil,
    List.append_nil, List.append_nil]

end Report

namespace Event

/-- What the events say about a scope. -/
def report (events : List Event) (root : Slot) (kind : ScopeKind) : Report where
  kind
  members := landings events (.group root)
  filters := landings events (.filters root)
  havings := landings events (.havings root)
  joins := (joins events root).map fun join => (join.1, join.2, landings events (.join join.1))
  unions := unions events root

/-! ### One more event -/

theorem joins_append (events more : List Event) (root : Slot) :
    joins (events ++ more) root = joins events root ++ joins more root :=
  List.filterMap_append

theorem unions_append (events more : List Event) (root : Slot) :
    unions (events ++ more) root = unions events root ++ unions more root :=
  List.filterMap_append

theorem landings_append (events more : List Event) (place : Spot) :
    landings (events ++ more) place = landings events place ++ landings more place :=
  List.filterMap_append

theorem landings_landed (spot place : Spot) (landing : Landing) :
    landings [.landed spot landing] place = Report.share spot place landing := by
  unfold landings Report.share
  by_cases same : spot = place <;> simp [same]

theorem report_landed (events : List Event) (spot : Spot) (landing : Landing) (root : Slot)
    (kind : ScopeKind) : report (events ++ [.landed spot landing]) root kind =
      (report events root kind).landed root spot landing := by
  have joins : joins (events ++ [.landed spot landing]) root = joins events root := by
    rw [joins_append]
    exact List.append_nil _
  have unions : unions (events ++ [.landed spot landing]) root = unions events root := by
    rw [unions_append]
    exact List.append_nil _
  unfold report Report.landed
  rw [joins, unions, List.map_map]
  simp only [landings_append, landings_landed]
  rfl

theorem report_opened (events : List Event) (inner : Slot) (innerKind : ScopeKind) (root : Slot)
    (kind : ScopeKind) : report (events ++ [.opened inner innerKind]) root kind =
      report events root kind := by
  have nothing : ∀ place, landings (events ++ [.opened inner innerKind]) place =
      landings events place := by
    intro place
    rw [landings_append]
    exact List.append_nil _
  unfold report
  rw [joins_append, unions_append]
  simp only [nothing]
  rw [show joins [.opened inner innerKind] root = [] from rfl,
    show unions [.opened inner innerKind] root = [] from rfl, List.append_nil, List.append_nil]

theorem report_joined (events : List Event) (scope slot : Slot) (joinKind : JoinKind) (root : Slot)
    (kind : ScopeKind) (unjoined : landings events (.join slot) = []) :
    report (events ++ [.joined scope slot joinKind]) root kind =
      if scope = root then (report events root kind).joined slot joinKind
      else report events root kind := by
  have nothing : ∀ place, landings (events ++ [.joined scope slot joinKind]) place =
      landings events place := by
    intro place
    rw [landings_append]
    exact List.append_nil _
  unfold report Report.joined
  rw [joins_append, unions_append]
  simp only [nothing]
  rw [show unions [.joined scope slot joinKind] root = [] from rfl, List.append_nil]
  by_cases here : scope = root
  · subst here
    rw [show joins [.joined scope slot joinKind] scope = [(slot, joinKind)] by simp [joins],
      List.map_append, if_pos rfl, List.map_cons, List.map_nil, unjoined]
  · rw [show joins [.joined scope slot joinKind] root = [] by simp [joins, here], List.append_nil,
      if_neg here]

theorem report_united (events : List Event) (scope slot : Slot) (all : Bool) (root : Slot)
    (kind : ScopeKind) : report (events ++ [.united scope slot all]) root kind =
      if scope = root then (report events root kind).united slot all
      else report events root kind := by
  have nothing : ∀ place, landings (events ++ [.united scope slot all]) place =
      landings events place := by
    intro place
    rw [landings_append]
    exact List.append_nil _
  unfold report Report.united
  rw [joins_append, unions_append]
  simp only [nothing]
  rw [show joins [.united scope slot all] root = [] from rfl, List.append_nil]
  by_cases here : scope = root
  · subst here
    rw [show unions [.united scope slot all] scope = [(slot, all)] by simp [unions], if_pos rfl]
  · rw [show unions [.united scope slot all] root = [] by simp [unions, here], List.append_nil,
      if_neg here]

end Event

/-- **The reports of the scopes are what the events say about them.** -/
structure Recorded (events : List Event) (scopes : List Slot) (reports : Slot → Report) : Prop where
  openings : Event.openings events = scopes.reverse.map fun root => (root, (reports root).kind)
  report : ∀ root ∈ scopes, reports root = Event.report events root (reports root).kind
  unknown : ∀ root, root ∉ scopes → ∀ kind, Event.report events root kind = .silent kind
  unjoined : ∀ slot, (∀ root ∈ scopes, slot ∉ (reports root).joinSlots) →
    Event.landings events (.join slot) = []
  distinct : ∀ root ∈ scopes, (reports root).joinSlots.Nodup
  apart : ∀ first ∈ scopes, ∀ second ∈ scopes, ∀ slot ∈ (reports first).joinSlots,
    slot ∈ (reports second).joinSlots → first = second
  fits : ∀ root ∈ scopes, (reports root).Fits

namespace Recorded

variable {events : List Event} {scopes : List Slot} {reports : Slot → Report} {root : Slot}

theorem openings_update (recorded : Recorded events scopes reports) {changed : Report}
    (kind : changed.kind = (reports root).kind) : Event.openings events =
      scopes.reverse.map fun found => (found, (Function.update reports root changed found).kind) := by
  rw [recorded.openings]
  refine List.map_congr_left fun found _ => ?_
  by_cases here : found = root
  · rw [here, Function.update_self, kind]
  · rw [Function.update_of_ne here]

/-- **One more join.** -/
theorem joined (recorded : Recorded events scopes reports) (isScope : root ∈ scopes) {slot : Slot}
    (kind : JoinKind) (isNew : ∀ found ∈ scopes, slot ∉ (reports found).joinSlots)
    (plain : (reports root).kind ≠ .group) :
    Recorded (events ++ [.joined root slot kind]) scopes
      (Function.update reports root ((reports root).joined slot kind)) := by
  have unjoined := recorded.unjoined slot isNew
  have slots : ∀ found, (Function.update reports root ((reports root).joined slot kind)
      found).joinSlots = (reports found).joinSlots ++ if found = root then [slot] else [] := by
    intro found
    by_cases here : found = root
    · rw [here, Function.update_self, Report.joinSlots_joined, if_pos rfl]
    · rw [Function.update_of_ne here, if_neg here, List.append_nil]
  have member : ∀ found other, other ∈ (Function.update reports root
      ((reports root).joined slot kind) found).joinSlots ↔
        other ∈ (reports found).joinSlots ∨ (found = root ∧ other = slot) := by
    intro found other
    rw [slots, List.mem_append]
    by_cases here : found = root <;> simp [here]
  refine ⟨?_, fun found known => ?_, fun found away shown => ?_, fun other free => ?_,
    fun found known => ?_, fun first known second knownToo other inFirst inSecond => ?_,
    fun found known => ?_⟩
  · rw [Event.openings_append, show Event.openings [.joined root slot kind] = [] from rfl,
      List.append_nil]
    exact recorded.openings_update rfl
  · rw [Event.report_joined _ _ _ _ _ _ unjoined]
    by_cases here : found = root
    · subst here
      rw [Function.update_self, if_pos rfl]
      exact congrArg (Report.joined · slot kind) (recorded.report found known)
    · rw [Function.update_of_ne here, if_neg (Ne.symm here)]
      exact recorded.report found known
  · have here : root ≠ found := fun same => away (same ▸ isScope)
    rw [Event.report_joined _ _ _ _ _ _ unjoined, if_neg here]
    exact recorded.unknown found away shown
  · rw [Event.landings_append, show Event.landings [.joined root slot kind] (.join other) = [] from
      rfl, List.append_nil]
    exact recorded.unjoined other fun found known inSlots =>
      free found known ((member found other).mpr (Or.inl inSlots))
  · rw [slots]
    refine List.nodup_append.mpr ⟨recorded.distinct found known, ?_, ?_⟩
    · split
      · exact List.nodup_singleton slot
      · exact List.nodup_nil
    · intro other inSlots last inLast same
      split at inLast
      · rw [List.mem_singleton.mp inLast] at same
        exact isNew found known (same ▸ inSlots)
      · exact absurd inLast List.not_mem_nil
  · rcases (member first other).mp inFirst with old | ⟨rfl, rfl⟩
    · rcases (member second other).mp inSecond with oldToo | ⟨rfl, rfl⟩
      · exact recorded.apart first known second knownToo other old oldToo
      · exact absurd old (isNew first known)
    · rcases (member second other).mp inSecond with oldToo | ⟨rfl, -⟩
      · exact absurd oldToo (isNew second knownToo)
      · rfl
  · by_cases here : found = root
    · rw [here, Function.update_self]
      exact (recorded.fits root isScope).joined plain slot kind
    · rw [Function.update_of_ne here]
      exact recorded.fits found known

/-- A change of one report that keeps its kind and its joins. -/
theorem revised {more : List Event} {changed : Report} (recorded : Recorded events scopes reports)
    (openings : Event.openings more = [])
    (report : ∀ found ∈ scopes, Function.update reports root changed found =
      Event.report (events ++ more) found (reports found).kind)
    (unknown : ∀ found, found ∉ scopes → ∀ kind, Event.report (events ++ more) found kind =
      .silent kind)
    (kind : changed.kind = (reports root).kind) (slots : changed.joinSlots = (reports root).joinSlots)
    (unjoined : ∀ slot, (∀ found ∈ scopes, slot ∉ (reports found).joinSlots) →
      Event.landings more (.join slot) = []) (fits : changed.Fits) :
    Recorded (events ++ more) scopes (Function.update reports root changed) := by
  have kinds : ∀ found, (Function.update reports root changed found).kind = (reports found).kind := by
    intro found
    by_cases here : found = root
    · rw [here, Function.update_self, kind]
    · rw [Function.update_of_ne here]
  have same : ∀ found, (Function.update reports root changed found).joinSlots =
      (reports found).joinSlots := by
    intro found
    by_cases here : found = root
    · rw [here, Function.update_self, slots]
    · rw [Function.update_of_ne here]
  refine ⟨?_, fun found known => ?_, unknown, fun slot free => ?_, fun found known => ?_,
    fun first known second knownToo slot inFirst inSecond => ?_, fun found known => ?_⟩
  · rw [Event.openings_append, openings, List.append_nil]
    exact recorded.openings_update kind
  · rw [kinds]
    exact report found known
  · simp only [same] at free
    rw [Event.landings_append, recorded.unjoined slot free, unjoined slot free, List.append_nil]
  · rw [same]
    exact recorded.distinct found known
  · rw [same] at inFirst inSecond
    exact recorded.apart first known second knownToo slot inFirst inSecond
  · by_cases here : found = root
    · rw [here, Function.update_self]
      exact fits
    · rw [Function.update_of_ne here]
      exact recorded.fits found known

/-- **One more union.** -/
theorem united (recorded : Recorded events scopes reports) (isScope : root ∈ scopes) (slot : Slot)
    (all : Bool) : Recorded (events ++ [.united root slot all]) scopes
      (Function.update reports root ((reports root).united slot all)) := by
  have fits : ((reports root).united slot all).Fits :=
    ⟨(recorded.fits root isScope).bare, (recorded.fits root isScope).plain⟩
  refine recorded.revised rfl (fun found known => ?_) (fun found away kind => ?_) rfl rfl
    (fun _ _ => rfl) fits
  · rw [Event.report_united]
    by_cases here : found = root
    · subst here
      rw [Function.update_self, if_pos rfl]
      exact congrArg (Report.united · slot all) (recorded.report found known)
    · rw [Function.update_of_ne here, if_neg (Ne.symm here)]
      exact recorded.report found known
  · have here : root ≠ found := fun same => away (same ▸ isScope)
    rw [Event.report_united, if_neg here]
    exact recorded.unknown found away kind

/-- A place of conditions belongs to one scope. -/
theorem not_has (recorded : Recorded events scopes reports) (isScope : root ∈ scopes) {spot : Spot}
    (has : (reports root).Has root spot) {found : Slot} (known : found ∈ scopes)
    (different : found ≠ root) : ¬ (reports found).Has found spot := by
  intro hasToo
  rcases hasToo.same_scope has with same | ⟨slot, inSlots, inOthers⟩
  · exact different same
  · exact different (recorded.apart found known root isScope slot inSlots inOthers)

/-- **One more condition.** -/
theorem landed (recorded : Recorded events scopes reports) (isScope : root ∈ scopes) {spot : Spot}
    (has : (reports root).Has root spot)
    (suits : spot = .group root ↔ (reports root).kind = .group) (landing : Landing) :
    Recorded (events ++ [.landed spot landing]) scopes
      (Function.update reports root ((reports root).landed root spot landing)) := by
  refine recorded.revised rfl (fun found known => ?_) (fun found away kind => ?_) rfl
    (Report.joinSlots_landed _ _ _ _) (fun slot free => ?_)
    ((recorded.fits root isScope).landed suits landing)
  · rw [Event.report_landed]
    have before := recorded.report found known
    by_cases here : found = root
    · subst here
      rw [Function.update_self]
      exact congrArg (Report.landed · found spot landing) before
    · rw [Function.update_of_ne here, ← before,
        Report.landed_eq_self (recorded.not_has isScope has known here)]
  · rw [Event.report_landed, recorded.unknown found away kind]
    refine Report.landed_eq_self ?_
    have different : found ≠ root := fun same => away (same ▸ isScope)
    intro hasToo
    rcases hasToo.same_scope has with same | ⟨slot, inSlots, _⟩
    · exact different same
    · exact absurd inSlots List.not_mem_nil
  · rw [Event.landings_landed]
    refine Report.share_of_ne ?_ landing
    rintro rfl
    rcases has with same | same | same | ⟨other, inSlots, same⟩
    · exact nomatch same
    · exact nomatch same
    · exact nomatch same
    · obtain rfl := Spot.join.inj same
      exact free root isScope inSlots

/-- **One more scope.** -/
theorem opened (recorded : Recorded events scopes reports) {inner : Slot} (isNew : inner ∉ scopes)
    (kind : ScopeKind) : Recorded (events ++ [.opened inner kind]) (inner :: scopes)
      (Function.update reports inner (.silent kind)) := by
  have old : ∀ found ∈ scopes, Function.update reports inner (.silent kind) found =
      reports found := by
    rintro found known
    refine Function.update_of_ne ?_ _ _
    rintro rfl
    exact isNew known
  have slots : (Function.update reports inner (.silent kind) inner).joinSlots = [] := by
    rw [Function.update_self]
    rfl
  refine ⟨?_, fun found known => ?_, fun found away shown => ?_, fun slot free => ?_,
    fun found known => ?_, fun first known second knownToo slot inFirst inSecond => ?_,
    fun found known => ?_⟩
  · rw [Event.openings_append, recorded.openings, List.reverse_cons, List.map_append]
    refine congrArg₂ _ (List.map_congr_left fun found member => ?_) ?_
    · rw [old found (List.mem_reverse.mp member)]
    · rw [List.map_singleton, Function.update_self]
      rfl
  · rw [Event.report_opened]
    rcases List.mem_cons.mp known with rfl | further
    · rw [Function.update_self]
      exact (recorded.unknown found isNew kind).symm
    · rw [old found further]
      exact recorded.report found further
  · rw [Event.report_opened]
    exact recorded.unknown found (fun known => away (List.mem_cons_of_mem _ known)) shown
  · rw [Event.landings_append, show Event.landings [.opened inner kind] (.join slot) = [] from rfl,
      List.append_nil]
    refine recorded.unjoined slot fun found known => ?_
    have unlisted := free found (List.mem_cons_of_mem _ known)
    rwa [old found known] at unlisted
  · rcases List.mem_cons.mp known with rfl | further
    · rw [slots]
      exact List.nodup_nil
    · rw [old found further]
      exact recorded.distinct found further
  · rcases List.mem_cons.mp known with rfl | further
    · rw [slots] at inFirst
      exact absurd inFirst List.not_mem_nil
    · rcases List.mem_cons.mp knownToo with rfl | furtherToo
      · rw [slots] at inSecond
        exact absurd inSecond List.not_mem_nil
      · rw [old first further] at inFirst
        rw [old second furtherToo] at inSecond
        exact recorded.apart first further second furtherToo slot inFirst inSecond
  · rcases List.mem_cons.mp known with rfl | further
    · rw [Function.update_self]
      exact Report.fits_silent kind
    · rw [old found further]
      exact recorded.fits found further

/-- The record of a draft in which nothing was said. -/
theorem new (root : Slot) (kind : ScopeKind) :
    Recorded [.opened root kind] [root] fun _ => .silent kind where
  openings := rfl
  report _ _ := rfl
  unknown _ _ _ := rfl
  unjoined _ _ := rfl
  distinct _ _ := List.nodup_nil
  apart _ _ _ _ _ inFirst _ := absurd inFirst List.not_mem_nil
  fits _ _ := Report.fits_silent kind

end Recorded

end SqlDraft
