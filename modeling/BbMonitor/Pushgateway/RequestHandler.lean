import BbMonitor.Lib.Framing
import BbMonitor.Prometheus.Lines

/-!
# The push gateway

`request_handler` of `bb-monitor-prom-pushgateway-proxy`: the job and the instance are taken
from the path, the metrics from the body.  The segment between the job and the instance can
have any name.
-/

namespace BbMonitor.Pushgateway

inductive Method where
  | post
  | put
  | delete
  | other
deriving DecidableEq, Repr

structure HttpRequest where
  path : Bytes
  method : Method
  body : Bytes

inductive HandlingStatus where
  | accepted
  | rejected
deriving DecidableEq, Repr

/-- What the handler does with a request. -/
structure Answer where
  status : HandlingStatus
  -- The response 201 is sent.
  created : Bool
  -- What is inserted into the stream.
  inserted : List Metric
deriving DecidableEq, Repr

def Answer.rejected : Answer := ⟨.rejected, false, []⟩

/-- `'/'`. -/
def slash : UInt8 := 0x2f

/-- `"/metrics/job/"`. -/
def jobPrefix : Bytes := bytes "/metrics/job/"

/-- `job_id` and `instance_id`, from what is behind the prefix. -/
def groupOf (path : Bytes) : Option (Bytes × Bytes) :=
  match findFirstOf path [slash] 0 with
  | some firstSlash =>
      match findFirstOf path [slash] (firstSlash + 1) with
      | none => none
      | some secondSlash => some (path.take firstSlash, path.drop (secondSlash + 1))
  | none => if path.length ≠ 0 then some (path, []) else none

def requestHandler (atof : Bytes → Double) (atoll : Bytes → Int64) (clock : ℕ → Int64)
    (req : HttpRequest) : Except Failure Answer :=
  if req.path.length > 13 ∧ req.path.take 13 = jobPrefix then
    if req.method = .post ∨ req.method = .put then
      match groupOf (req.path.drop 13) with
      | none => .ok Answer.rejected
      | some (jobId, instanceId) =>
          (Prometheus.parsePrometheusLineFormat2BbMetrics atof atoll clock jobId instanceId
            req.body).map fun v => ⟨.accepted, true, v⟩
    else if req.method = .delete then .ok ⟨.accepted, false, []⟩
    else .ok Answer.rejected
  else .ok Answer.rejected

/-! ## Paths -/

section

variable {path jobId instanceId key : Bytes}

theorem groupOf_of_notMem (hpath : slash ∉ path) :
    groupOf path = if path.length ≠ 0 then some (path, []) else none := by
  rw [groupOf, findFirstOf_char_eq_none (by rwa [List.drop_zero])]

theorem groupOf_of_one (hjob : slash ∉ jobId) (hkey : slash ∉ key) :
    groupOf (jobId ++ slash :: key) = none := by
  have hfirst : findFirstOf (jobId ++ slash :: key) [slash] 0 = some (0 + jobId.length) :=
    findFirstOf_char_eq_some List.drop_zero hjob
  have hsecond : findFirstOf (jobId ++ slash :: key) [slash] (0 + jobId.length + 1) = none := by
    refine findFirstOf_char_eq_none ?_
    rwa [Nat.zero_add, drop_append_cons]
  simp only [groupOf, hfirst, hsecond]

theorem groupOf_of_two (hjob : slash ∉ jobId) (hkey : slash ∉ key) :
    groupOf (jobId ++ slash :: (key ++ slash :: instanceId)) = some (jobId, instanceId) := by
  have hfirst : findFirstOf (jobId ++ slash :: (key ++ slash :: instanceId)) [slash] 0 =
      some (0 + jobId.length) :=
    findFirstOf_char_eq_some List.drop_zero hjob
  have hbehind : (jobId ++ slash :: (key ++ slash :: instanceId)).drop (0 + jobId.length + 1) =
      key ++ slash :: instanceId := by
    rw [Nat.zero_add, drop_append_cons]
  have hsecond : findFirstOf (jobId ++ slash :: (key ++ slash :: instanceId)) [slash]
      (0 + jobId.length + 1) = some (0 + jobId.length + 1 + key.length) :=
    findFirstOf_char_eq_some hbehind hkey
  have hinstance : (jobId ++ slash :: (key ++ slash :: instanceId)).drop
      (0 + jobId.length + 1 + key.length + 1) = instanceId := by
    rw [Nat.add_assoc _ key.length, ← List.drop_drop, hbehind, drop_append_cons]
  simp only [groupOf, hfirst, hsecond, hinstance]
  rw [Nat.zero_add, List.take_left]

/-- The paths for a job and an instance: the job alone, or the job, a segment and the
instance, which may have slashes of its own. -/
theorem groupOf_eq_some_iff :
    groupOf path = some (jobId, instanceId) ↔
      slash ∉ jobId ∧
        ((path = jobId ∧ jobId ≠ [] ∧ instanceId = []) ∨
          ∃ key, slash ∉ key ∧ path = jobId ++ slash :: (key ++ slash :: instanceId)) := by
  constructor
  · intro hgroup
    rcases notMem_or_exists_line slash path with hpath | ⟨job, rest, rfl, hjob⟩
    · rw [groupOf_of_notMem hpath] at hgroup
      obtain ⟨hlength, heq⟩ := Option.ite_none_right_eq_some.mp hgroup
      obtain ⟨rfl, rfl⟩ := Prod.mk.inj (Option.some.inj heq)
      exact ⟨hpath, Or.inl ⟨rfl, List.length_pos_iff.mp (Nat.pos_of_ne_zero hlength), rfl⟩⟩
    · rcases notMem_or_exists_line slash rest with hrest | ⟨key, instance', rfl, hkey⟩
      · rw [groupOf_of_one hjob hrest] at hgroup
        cases hgroup
      · rw [groupOf_of_two hjob hkey] at hgroup
        obtain ⟨rfl, rfl⟩ := Prod.mk.inj (Option.some.inj hgroup)
        exact ⟨hjob, Or.inr ⟨key, hkey, rfl⟩⟩
  · rintro ⟨hjob, ⟨rfl, hne, rfl⟩ | ⟨key, hkey, rfl⟩⟩
    · rw [groupOf_of_notMem hjob, if_pos (List.length_pos_iff.mpr hne).ne']
    · exact groupOf_of_two hjob hkey

end

/-! ## Requests -/

section

variable (atof : Bytes → Double) (atoll : Bytes → Int64) (clock : ℕ → Int64) (req : HttpRequest)

/-- A push with a path for a job and an instance. -/
theorem requestHandler_of_group {rest jobId instanceId : Bytes}
    (hmethod : req.method = .post ∨ req.method = .put) (hpath : req.path = jobPrefix ++ rest)
    (hgroup : groupOf rest = some (jobId, instanceId)) :
    requestHandler atof atoll clock req =
      (Prometheus.parsePrometheusLineFormat2BbMetrics atof atoll clock jobId instanceId
        req.body).map fun v => ⟨.accepted, true, v⟩ := by
  have hlength : jobPrefix.length = 13 := rfl
  have hrest : rest ≠ [] := by
    rintro rfl
    cases hgroup
  have hlong : req.path.length > 13 ∧ req.path.take 13 = jobPrefix := by
    rw [hpath, List.length_append, hlength, List.take_left' hlength]
    exact ⟨Nat.lt_add_of_pos_right (List.length_pos_iff.mpr hrest), rfl⟩
  have hdrop : req.path.drop 13 = rest := by
    rw [hpath, List.drop_left' hlength]
  rw [requestHandler, if_pos hlong, if_pos hmethod, hdrop, hgroup]

/-- The response 201 is sent exactly for a push to a job, or to a job and an instance, whose
body the parser returns from; what the parser returns is inserted. -/
theorem created_iff (inserted : List Metric) :
    requestHandler atof atoll clock req = .ok ⟨.accepted, true, inserted⟩ ↔
      (req.method = .post ∨ req.method = .put) ∧ ∃ jobId instanceId, slash ∉ jobId ∧
        ((req.path = jobPrefix ++ jobId ∧ jobId ≠ [] ∧ instanceId = []) ∨
          ∃ key, slash ∉ key ∧
            req.path = jobPrefix ++ (jobId ++ slash :: (key ++ slash :: instanceId))) ∧
        Prometheus.parsePrometheusLineFormat2BbMetrics atof atoll clock jobId instanceId
          req.body = .ok inserted := by
  constructor
  · intro hcreated
    unfold requestHandler at hcreated
    split at hcreated
    · rename_i hpath
      split at hcreated
      · rename_i hmethod
        split at hcreated
        · cases hcreated
        · rename_i jobId instanceId hgroup
          have hsplit : req.path = jobPrefix ++ req.path.drop 13 := by
            rw [← hpath.2, List.take_append_drop]
          have hparse : Prometheus.parsePrometheusLineFormat2BbMetrics atof atoll clock jobId
              instanceId req.body = .ok inserted := by
            cases hv : Prometheus.parsePrometheusLineFormat2BbMetrics atof atoll clock jobId
                instanceId req.body with
            | error e =>
                rw [hv] at hcreated
                cases hcreated
            | ok v =>
                rw [hv] at hcreated
                exact congrArg Except.ok (congrArg Answer.inserted (Except.ok.inj hcreated))
          obtain ⟨hjob, hform⟩ := groupOf_eq_some_iff.mp hgroup
          refine ⟨hmethod, jobId, instanceId, hjob, ?_, hparse⟩
          rcases hform with ⟨heq, hrest⟩ | ⟨key, hkey, heq⟩
          · exact Or.inl ⟨by rw [hsplit, heq], hrest⟩
          · exact Or.inr ⟨key, hkey, by rw [hsplit, heq]⟩
      · split at hcreated <;> cases hcreated
    · cases hcreated
  · rintro ⟨hmethod, jobId, instanceId, hjob, hform, hparse⟩
    have hgroup : ∃ rest, req.path = jobPrefix ++ rest ∧
        groupOf rest = some (jobId, instanceId) := by
      rcases hform with ⟨hpath, hrest⟩ | ⟨key, hkey, hpath⟩
      · exact ⟨jobId, hpath, groupOf_eq_some_iff.mpr ⟨hjob, Or.inl ⟨rfl, hrest⟩⟩⟩
      · exact ⟨_, hpath, groupOf_eq_some_iff.mpr ⟨hjob, Or.inr ⟨key, hkey, rfl⟩⟩⟩
    obtain ⟨rest, hpath, hgroup⟩ := hgroup
    rw [requestHandler_of_group atof atoll clock req hmethod hpath hgroup, hparse]
    rfl

end

end BbMonitor.Pushgateway
