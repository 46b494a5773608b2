import Orchestration.Proofs.Migration.Commuting

/-!
# Executing one rule

Where nothing is resolved on the way, a rule looks up the populated value that the keys of its value
path lead to through maps, and is refused if they run into a list first.  Then it walks to its
targets, unless it has nothing to write there.
-/

set_option autoImplicit false

namespace Orchestration.Migration

variable {context : Context} {rule : Rule}

/-! ## The value path -/

/-- The value path runs into a list before it ends. -/
def RunsIntoList (path : List String) (data : Object) : Prop :=
  ∃ front items, front <+: path ∧ front ≠ path ∧
    (Json.object data).along? front = some (.list items)

theorem not_runsIntoList_nil (data : Object) : ¬ RunsIntoList [] data := by
  rintro ⟨front, items, ahead, apart, -⟩
  exact apart (List.prefix_nil.mp ahead)

theorem not_runsIntoList_single (key : String) (data : Object) : ¬ RunsIntoList [key] data := by
  rintro ⟨front, items, ahead, apart, there⟩
  rcases List.prefix_cons_iff.mp ahead with rfl | ⟨rest, rfl, nothing⟩
  · cases there
  · cases List.prefix_nil.mp nothing
    exact apart rfl

theorem runsIntoList_cons (key next : String) (rest : List String) (data : Object) :
    RunsIntoList (key :: next :: rest) data ↔
      (∃ items, Entries.get? data key = some (.list items)) ∨
        ∃ child, Entries.get? data key = some (.object child) ∧
          RunsIntoList (next :: rest) child := by
  constructor
  · rintro ⟨front, items, ahead, apart, there⟩
    rcases List.prefix_cons_iff.mp ahead with rfl | ⟨more, rfl, below⟩
    · cases there
    · obtain ⟨x, here, inside⟩ := Option.bind_eq_some_iff.mp there
      cases more with
      | nil =>
        cases inside
        exact .inl ⟨items, here⟩
      | cons first others =>
        cases x with
        | object child =>
          exact .inr ⟨child, here, first :: others, items, below, fun same => apart (by rw [same]),
            inside⟩
        | _ => cases inside
  · rintro (⟨items, here⟩ | ⟨child, here, front, items, ahead, apart, there⟩)
    · refine ⟨[key], items, ⟨next :: rest, rfl⟩, by simp, ?_⟩
      rw [Json.along?, here]
      rfl
    · refine ⟨key :: front, items, List.cons_prefix_cons.mpr ⟨rfl, ahead⟩,
        fun same => apart (List.cons.inj same).2, ?_⟩
      rw [Json.along?, here]
      exact there

namespace RunsIntoList

variable {key : String} {path rest : List String} {first second data : Object}

theorem of_get? (same : Entries.get? second key = Entries.get? first key)
    (runs : RunsIntoList (key :: rest) first) : RunsIntoList (key :: rest) second := by
  cases rest with
  | nil => exact absurd runs (not_runsIntoList_single key first)
  | cons next others =>
    rw [runsIntoList_cons] at runs ⊢
    rwa [same]

theorem of_erase (distinct : Entries.Distinct data) (key : String)
    (runs : RunsIntoList path (Entries.erase data key)) : RunsIntoList path data := by
  match path with
  | [] => exact absurd runs (not_runsIntoList_nil _)
  | [last] => exact absurd runs (not_runsIntoList_single last _)
  | first :: second :: others =>
    have slot := Entries.get?_erase data distinct key first
    by_cases same : key = first
    · rw [if_pos same] at slot
      simp [runsIntoList_cons, slot] at runs
    · rw [if_neg same] at slot
      exact runs.of_get? slot.symm

end RunsIntoList

theorem readAt_found_iff (path : List String) (nonempty : path ≠ []) (data : Object)
    (value : Json) : readAt path data = .ok (.found value) ↔
      (Json.object data).along? path = some value ∧ isPopulated value = true := by
  induction path generalizing data with
  | nil => exact absurd rfl nonempty
  | cons key rest ih =>
    cases rest with
    | nil =>
      rw [Json.along?]
      cases here : Entries.get? data key with
      | none => simp [readAt, here]
      | some x =>
        simp only [readAt, here, Option.bind_some, Json.along?, Option.some.injEq]
        by_cases populated : isPopulated x = true
        · rw [if_pos populated, Except.ok.injEq, Lookup.found.injEq]
          exact ⟨fun same => ⟨same, same ▸ populated⟩, And.left⟩
        · rw [if_neg populated]
          refine ⟨fun missing => by simp at missing, ?_⟩
          rintro ⟨rfl, other⟩
          exact absurd other populated
    | cons next others =>
      rw [readAt_cons, Json.along?]
      cases here : Entries.get? data key with
      | none => simp
      | some x =>
        cases x with
        | object child => exact ih (List.cons_ne_nil _ _) child
        | _ => simp [Json.along?]

theorem readAt_error_iff (path : List String) (data : Object) (e : Error) :
    readAt path data = .error e ↔ e = .sourceInsideList ∧ RunsIntoList path data := by
  induction path generalizing data with
  | nil => simp [readAt, not_runsIntoList_nil]
  | cons key rest ih =>
    cases rest with
    | nil => cases here : Entries.get? data key <;> simp [readAt, here, not_runsIntoList_single]
    | cons next others =>
      rw [readAt_cons, runsIntoList_cons]
      cases here : Entries.get? data key with
      | none => simp
      | some x =>
        cases x with
        | object child => simpa using ih child
        | list items => simp [eq_comm]
        | _ => simp

theorem not_runsIntoList_of_ok {path : List String} {data : Object} {lookup : Lookup}
    (looked : readAt path data = .ok lookup) : ¬ RunsIntoList path data := by
  intro runs
  cases looked.symm.trans ((readAt_error_iff path data _).mpr ⟨rfl, runs⟩)

theorem readAt_ne_skip (path : List String) (data : Object) : readAt path data ≠ .ok .skip := by
  induction path generalizing data with
  | nil => simp [readAt]
  | cons key rest ih =>
    cases rest with
    | nil =>
      cases here : Entries.get? data key with
      | none => simp [readAt, here]
      | some x =>
        simp only [readAt, here]
        split <;> simp
    | cons next others =>
      rw [readAt_cons]
      split
      · exact ih _
      · simp
      · simp

theorem readAt_removeAt (path : List String) (data : Object) (good : (Json.object data).WellFormed)
    (outside : ¬ RunsIntoList path data) : readAt path (removeAt path data) = .ok .missing := by
  induction path generalizing data with
  | nil => rfl
  | cons key rest ih =>
    cases rest with
    | nil =>
      have gone : Entries.get? (Entries.erase data key) key = none := by
        rw [Entries.get?_erase data good.distinct, if_pos rfl]
      simp only [removeAt, readAt, gone]
    | cons next others =>
      rw [runsIntoList_cons, not_or] at outside
      rw [removeAt, readAt_cons]
      rcases slot_cases (Entries.get? data key) with ⟨child, here⟩ | ⟨items, here⟩ | here | closed
      · rw [here]
        simp only [Entries.get?_put, if_true]
        exact ih child (good.entry key _ here) fun runs => outside.2 ⟨child, here, runs⟩
      · exact absurd ⟨items, here⟩ outside.1
      · rcases here with here | here <;> simp [here]
      · obtain ⟨value, here, notMap, notList, -⟩ := closed
        cases value with
        | object child => exact absurd rfl (notMap child)
        | list items => exact absurd rfl (notList items)
        | _ => simp [here]

namespace Rule

variable {schema : Schema} {found : Option Json}

def Looked (rule : Rule) (data : Object) (found : Option Json) : Prop :=
  ∀ value, found = some value ↔
    ∃ path, rule.valuePath = some path ∧ readAt path data = .ok (.found value)

theorem execute_looked (schema : Schema) (data : Object)
    (free : ∀ path, rule.valuePath = some path → context.FreeAlong false path data) :
    (∃ path, rule.valuePath = some path ∧ RunsIntoList path data) ∧
        rule.execute context schema data = (.error .sourceInsideList, data) ∨
      (∀ path, rule.valuePath = some path → ¬ RunsIntoList path data) ∧
        ∃ found, rule.Looked data found ∧
          rule.execute context schema data = rule.write context schema found data := by
  rw [execute_free data free, read]
  cases reads : rule.valuePath with
  | none => exact .inr ⟨by simp, none, by simp [Looked, reads], rfl⟩
  | some path =>
    simp only
    cases looked : readAt path data with
    | error e =>
      obtain ⟨rfl, runs⟩ := (readAt_error_iff path data e).mp looked
      exact .inl ⟨⟨path, rfl, runs⟩, rfl⟩
    | ok lookup =>
      have outside : ∀ other, some path = some other → ¬ RunsIntoList other data := by
        rintro _ ⟨⟩
        exact not_runsIntoList_of_ok looked
      refine .inr ⟨outside, ?_⟩
      cases lookup with
      | skip => exact absurd looked (readAt_ne_skip path data)
      | missing => exact ⟨none, by simp [Looked, reads, looked], rfl⟩
      | found value => exact ⟨some value, by simp [Looked, reads, looked], rfl⟩

theorem execute_ok {data after : Object}
    (free : ∀ path, rule.valuePath = some path → context.FreeAlong false path data)
    (done : rule.execute context schema data = (.ok (), after)) :
    (∀ path, rule.valuePath = some path → ¬ RunsIntoList path data) ∧
      ∃ found, rule.Looked data found ∧ rule.write context schema found data = (.ok (), after) := by
  rcases execute_looked schema data free with ⟨-, refused⟩ | ⟨outside, found, looked, same⟩
  · cases refused.symm.trans done
  · exact ⟨outside, found, looked, same ▸ done⟩

/-! ## Writing -/

/-- The rule has nothing to write or to move. -/
def Idle (rule : Rule) (found : Option Json) : Prop :=
  ((rule.kind == .add || rule.kind == .replace) && (rule.source found).value.isNone &&
    rule.valueName.isNone) = true

theorem write_idle (idle : rule.Idle found) (data : Object) :
    rule.write context schema found data = (.ok (), data) :=
  if_pos idle

theorem write_busy (busy : ¬ rule.Idle found) (data : Object)
    (free : context.FreeAlong true rule.path data) :
    rule.write context schema found data =
      match (walking context rule (rule.source found)).run rule.path (some schema) data with
      | (.error e, left) => (.error e, left)
      | (.ok wrote, left) =>
        (.ok (), if (wrote && (rule.source found).fromPath && rule.kind == .replace) = true then
          removeAt (rule.valuePath.getD []) left else left) := by
  refine (if_neg busy).trans ?_
  rw [walk_eq_run_of_free _ _ _ _ free]
  generalize (walking context rule (rule.source found)).run rule.path (some schema) data = done
  match done with
  | (.error e, left) => rfl
  | (.ok wrote, left) =>
    simp only
    split <;> rfl

theorem write_ok (busy : ¬ rule.Idle found) {data after : Object}
    (free : context.FreeAlong true rule.path data)
    (done : rule.write context schema found data = (.ok (), after)) :
    ∃ wrote left,
      (walking context rule (rule.source found)).run rule.path (some schema) data =
        (.ok wrote, left) ∧
      after = if (wrote && (rule.source found).fromPath && rule.kind == .replace) = true then
        removeAt (rule.valuePath.getD []) left else left := by
  rw [write_busy busy data free] at done
  generalize (walking context rule (rule.source found)).run rule.path (some schema) data = walked
    at done ⊢
  match walked with
  | (.error e, left) => cases done
  | (.ok wrote, left) => exact ⟨wrote, left, rfl, (Prod.mk.inj done).2.symm⟩

end Rule

end Orchestration.Migration
