/-
  LaunchPad.Agent.Secrets — the environment of a service (`secrets.rs`
  `resolve_service_env`): its secret references looked up in SSM with one `GetParameters`,
  then merged with the plain env. Beside it the CLI's lookup (`cli/src/aws/ssm-secrets.ts`
  `getExistingSecretPaths`), which asks in batches.

  SSM is a parameter: `ParameterStore` says what it answers to a call of at most ten names,
  and that it refuses more. `Agent.BackupRun` takes what the call answered as given
  (`resolveServiceEnv_answer`).

  As built the agent asks for all references at once, and a service of eleven never starts.

  Proved:
  - `secrets_resolved_iff`: the environment is the plain env over the stored values, or an
    error if one is missing, exactly when there are ten references or one is missing.
  - `existing_paths_exact`: the CLI finds the names that exist, however many it asks for.
-/
import LaunchPad.Agent.BackupRun
import LaunchPad.Agent.RunArgs
import LaunchPad.Shared.Schema

namespace LaunchPad.Agent.Ssm

open Lib

/-! ## SSM -/

structure Parameter where
  name : Option String
  value : Option String
  deriving DecidableEq, Repr

/-- The names of one call. -/
def getParametersMax : Nat := 10

/-- `GetParameters` over stored values: `withDecryption`, the names. A call of too many names
    is refused; any other answers with the parameters that exist, decrypted if asked to. -/
structure ParameterStore (store : String → Option String) (getParameters : Bool → List String → Except String (List Parameter)) :
    Prop where
  answers : ∀ withDecryption names, names ≠ [] → names.length ≤ getParametersMax →
    ∃ ps, getParameters withDecryption names = .ok ps ∧
      (∀ name, (∃ p ∈ ps, p.name = some name) ↔ name ∈ names ∧ (store name).isSome) ∧
      (withDecryption = true → ∀ p ∈ ps, ∀ name, p.name = some name → p.value = store name)
  refuses : ∀ withDecryption names, getParametersMax < names.length → ∃ e, getParameters withDecryption names = .error e

/-! ## The agent's lookup (`secrets.rs`) -/

def insertFetched (fetched : SortedMap String String) (p : Parameter) : SortedMap String String :=
  match p.name, p.value with
  | some name, some value => SortedMap.insert name value fetched
  | _, _ => fetched

def resolveServiceEnv (getParameters : Bool → List String → Except String (List Parameter)) (config : ServiceConfig) :
    Except String (SortedMap String String) := do
  let fetched ←
    if config.secretRefs.isEmpty then .ok []
    else
      match getParameters true (config.secretRefs.map (·.ssm)) with
      | .error e => .error ("ssm get-parameters: " ++ e)
      | .ok ps => .ok (ps.foldl insertFetched [])
  mergeResolvedEnv config.secretRefs (fun name => SortedMap.get name fetched) config.env

/-- What a backup's env is resolved from. -/
theorem resolveServiceEnv_answer (getParameters : Bool → List String → Except String (List Parameter)) (config : ServiceConfig) :
    resolveServiceEnv getParameters config = Agent.resolveServiceEnv
      ((getParameters true (config.secretRefs.map (·.ssm))).map fun ps name => SortedMap.get name (ps.foldl insertFetched []))
      config := by
  unfold resolveServiceEnv Agent.resolveServiceEnv
  by_cases hnil : config.secretRefs.isEmpty = true
  · rw [if_pos hnil, if_pos hnil]
    rfl
  · rw [if_neg hnil, if_neg hnil]
    cases getParameters true (config.secretRefs.map (·.ssm)) <;> rfl

/-! ## The CLI's lookup (`ssm-secrets.ts`) -/

/-- A name that is empty is passed over. -/
def namesFound (ps : List Parameter) : List String := ps.filterMap fun p => p.name.filter (· ≠ "")

def getExistingSecretPaths (getParameters : Bool → List String → Except String (List Parameter)) :
    List String → Except String (List String)
  | [] => .ok []
  | path :: paths => do
    let ps ← getParameters false ((path :: paths).take getParametersMax)
    let found ← getExistingSecretPaths getParameters ((path :: paths).drop getParametersMax)
    return namesFound ps ++ found
termination_by paths => paths.length
decreasing_by
  simp only [getParametersMax, List.length_drop, List.length_cons]
  omega

/-! ## What is resolved -/

/-- A variable's value: the plain env's, else that of the last reference of the name. -/
def expectedValue (store : String → Option String) (config : ServiceConfig) (key : String) : Option String :=
  (SortedMap.get key (collect config.env)).or
    ((config.secretRefs.filter (·.name = key)).getLast?.bind fun r => store r.ssm)

/-- Where every reference exists, its stored value is there under the plain env; where one
    is missing, there is no environment. -/
structure SecretsResolved (store : String → Option String) (config : ServiceConfig)
    (result : Except String (SortedMap String String)) : Prop where
  found : (∀ r ∈ config.secretRefs, (store r.ssm).isSome) →
    ∃ env, result = .ok env ∧ SortedMap.Sorted env ∧ ∀ key, SortedMap.get key env = expectedValue store config key
  missing : (∃ r ∈ config.secretRefs, store r.ssm = none) → ∃ e, result = .error e

section Resolve

variable {store : String → Option String} {getParameters : Bool → List String → Except String (List Parameter)}
  {config : ServiceConfig}

theorem get_insertFetched (ps : List Parameter) {name : String} (m : SortedMap String String)
    (h : ∀ p ∈ ps, p.name = some name → p.value = store name ∧ (store name).isSome) :
    SortedMap.get name (ps.foldl insertFetched m) = if ∃ p ∈ ps, p.name = some name then store name else SortedMap.get name m := by
  induction ps generalizing m with
  | nil => simp
  | cons p ps ih =>
    rw [List.foldl_cons, ih _ fun q hq => h q (List.mem_cons_of_mem _ hq)]
    by_cases hlater : ∃ q ∈ ps, q.name = some name
    · have hany : ∃ q ∈ p :: ps, q.name = some name := hlater.imp fun q hq => ⟨List.mem_cons_of_mem _ hq.1, hq.2⟩
      rw [if_pos hlater, if_pos hany]
    · rw [if_neg hlater]
      by_cases hp : p.name = some name
      · obtain ⟨hvalue, hsome⟩ := h p (List.mem_cons_self ..) hp
        obtain ⟨v, hv⟩ := Option.isSome_iff_exists.mp hsome
        rw [if_pos ⟨p, List.mem_cons_self .., hp⟩, insertFetched, hp, hvalue, hv]
        exact SortedMap.get_insert_self name v m
      · have hnone : ¬∃ q ∈ p :: ps, q.name = some name := by
          intro ⟨q, hq, hname⟩
          rcases List.mem_cons.mp hq with rfl | hq
          · exact hp hname
          · exact hlater ⟨q, hq, hname⟩
        rw [if_neg hnone]
        unfold insertFetched
        cases hn : p.name with
        | none => rfl
        | some other =>
          cases p.value with
          | none => rfl
          | some v =>
            have hne : name ≠ other := by
              rintro rfl
              exact hp hn
            exact SortedMap.get_insert_ne hne v m

/-- The env over stored values. -/
theorem mergeResolvedEnv_expected {fetched : String → Option String} {env : SortedMap String String}
    (hf : ∀ r ∈ config.secretRefs, fetched r.ssm = store r.ssm) (hall : ∀ r ∈ config.secretRefs, (store r.ssm).isSome)
    (h : mergeResolvedEnv config.secretRefs fetched config.env = .ok env) :
    SortedMap.Sorted env ∧ ∀ key, SortedMap.get key env = expectedValue store config key := by
  obtain ⟨_, rfl⟩ := mergeResolvedEnv_ok.mp h
  refine ⟨collect_sorted _, fun key => ?_⟩
  have hrefs : ((resolved fetched config.secretRefs).filter (·.1 = key)).getLast?.map (·.2) =
      (config.secretRefs.filter (·.name = key)).getLast?.bind fun r => store r.ssm := by
    unfold resolved
    rw [List.filter_map, List.getLast?_map, Option.map_map]
    have hfilter : config.secretRefs.filter ((fun e : String × String => decide (e.1 = key)) ∘
        fun r => (r.name, (fetched r.ssm).getD "")) = config.secretRefs.filter (·.name = key) := rfl
    rw [hfilter]
    cases hlast : (config.secretRefs.filter (·.name = key)).getLast? with
    | none => rfl
    | some r =>
      have hr := (List.mem_filter.mp (List.mem_of_getLast? hlast)).1
      obtain ⟨v, hv⟩ := Option.isSome_iff_exists.mp (hall r hr)
      simp only [Option.map_some, Option.bind_some, Function.comp_apply, hf r hr, hv, Option.getD_some]
  unfold expectedValue collect
  rw [SortedMap.get_foldl_pairs, SortedMap.get_foldl_pairs, List.filter_append, List.getLast?_append, ← hrefs]
  cases (config.env.filter (·.1 = key)).getLast? <;>
    cases ((resolved fetched config.secretRefs).filter (·.1 = key)).getLast? <;> rfl

/-- What one call fetches, of the names asked for. -/
theorem fetched_store (h : ParameterStore store getParameters) (hne : config.secretRefs ≠ [])
    (hmax : config.secretRefs.length ≤ getParametersMax) :
    ∃ ps, getParameters true (config.secretRefs.map (·.ssm)) = .ok ps ∧
      ∀ r ∈ config.secretRefs, SortedMap.get r.ssm (ps.foldl insertFetched []) = store r.ssm := by
  obtain ⟨ps, hps, hnames, hvalues⟩ := h.answers true (config.secretRefs.map (·.ssm)) (by simpa using hne) (by simpa using hmax)
  refine ⟨ps, hps, fun r hr => ?_⟩
  have hin : r.ssm ∈ config.secretRefs.map (·.ssm) := List.mem_map.mpr ⟨r, hr, rfl⟩
  rw [get_insertFetched ps [] fun p hp hname => ⟨hvalues rfl p hp _ hname, ((hnames _).mp ⟨p, hp, hname⟩).2⟩]
  by_cases hthere : ∃ p ∈ ps, p.name = some r.ssm
  · rw [if_pos hthere]
  · have hgone : ¬ (store r.ssm).isSome := fun hsome => hthere ((hnames _).mpr ⟨hin, hsome⟩)
    rw [if_neg hthere, Option.not_isSome_iff_eq_none.mp hgone]
    rfl

/-- Within the limit the references are merged as they are stored. -/
theorem resolveServiceEnv_within (h : ParameterStore store getParameters) (hmax : config.secretRefs.length ≤ getParametersMax) :
    ∃ fetched : String → Option String, (∀ r ∈ config.secretRefs, fetched r.ssm = store r.ssm) ∧
      resolveServiceEnv getParameters config = mergeResolvedEnv config.secretRefs fetched config.env := by
  by_cases hnil : config.secretRefs = []
  · refine ⟨fun name => SortedMap.get name [], fun r hr => ?_, ?_⟩
    · rw [hnil] at hr
      cases hr
    · unfold resolveServiceEnv
      rw [hnil]
      rfl
  · obtain ⟨ps, hps, hget⟩ := fetched_store h hnil hmax
    refine ⟨fun name => SortedMap.get name (ps.foldl insertFetched []), hget, ?_⟩
    have hnot : ¬ config.secretRefs.isEmpty = true := by simpa using hnil
    unfold resolveServiceEnv
    rw [if_neg hnot, hps]
    rfl

theorem resolveServiceEnv_beyond (h : ParameterStore store getParameters) (hmax : getParametersMax < config.secretRefs.length) :
    ∃ e, resolveServiceEnv getParameters config = .error e := by
  have hnot : ¬ config.secretRefs.isEmpty = true := by
    intro hnil
    rw [List.isEmpty_iff.mp hnil] at hmax
    exact absurd hmax (by decide)
  obtain ⟨e, he⟩ := h.refuses true (config.secretRefs.map (·.ssm)) (by simpa using hmax)
  refine ⟨"ssm get-parameters: " ++ e, ?_⟩
  unfold resolveServiceEnv
  rw [if_neg hnot, he]
  rfl

theorem secretsResolved_within (h : ParameterStore store getParameters) (hmax : config.secretRefs.length ≤ getParametersMax) :
    SecretsResolved store config (resolveServiceEnv getParameters config) := by
  obtain ⟨fetched, hf, hres⟩ := resolveServiceEnv_within h hmax
  rw [hres]
  refine ⟨fun hall => ?_, fun ⟨r, hr, hnone⟩ => ?_⟩
  · have hsome : ∀ r ∈ config.secretRefs, (fetched r.ssm).isSome := fun r hr => (hf r hr).symm ▸ hall r hr
    have hok : mergeResolvedEnv config.secretRefs fetched config.env =
        .ok (collect (resolved fetched config.secretRefs ++ config.env)) := mergeResolvedEnv_ok.mpr ⟨hsome, rfl⟩
    exact ⟨_, hok, mergeResolvedEnv_expected hf hall hok⟩
  · cases hm : mergeResolvedEnv config.secretRefs fetched config.env with
    | error e => exact ⟨e, rfl⟩
    | ok env =>
      have hsome := (mergeResolvedEnv_ok.mp hm).1 r hr
      rw [hf r hr, hnone] at hsome
      cases hsome

theorem secretsResolved_beyond (h : ParameterStore store getParameters) (hmax : getParametersMax < config.secretRefs.length) :
    SecretsResolved store config (resolveServiceEnv getParameters config) ↔ ∃ r ∈ config.secretRefs, store r.ssm = none := by
  obtain ⟨e, he⟩ := resolveServiceEnv_beyond h hmax
  constructor
  · intro hres
    by_contra hnone
    push Not at hnone
    obtain ⟨env, hok, _⟩ := hres.found fun r hr => Option.isSome_iff_ne_none.mpr (hnone r hr)
    rw [he] at hok
    cases hok
  · intro ⟨r, hr, hnone⟩
    refine ⟨fun hall => ?_, fun _ => ⟨e, he⟩⟩
    have hsome := hall r hr
    rw [hnone] at hsome
    cases hsome

/-- A service's environment is what it should be exactly when it has at most ten
    references, or one of them is missing. -/
theorem secrets_resolved_iff (h : ParameterStore store getParameters) (config : ServiceConfig) :
    SecretsResolved store config (resolveServiceEnv getParameters config) ↔
      config.secretRefs.length ≤ 10 ∨ ∃ r ∈ config.secretRefs, store r.ssm = none := by
  have hten : getParametersMax = 10 := rfl
  by_cases hmax : config.secretRefs.length ≤ 10
  · exact ⟨fun _ => .inl hmax, fun _ => secretsResolved_within h hmax⟩
  · rw [secretsResolved_beyond h (by omega)]
    exact ⟨.inr, fun hor => hor.resolve_left hmax⟩

/-- SSM over stored values. -/
def ssmOver (store : String → Option String) (_ : Bool) (names : List String) : Except String (List Parameter) :=
  if getParametersMax < names.length then .error "ValidationException"
  else .ok (names.filterMap fun name => (store name).map fun value => ⟨some name, some value⟩)

theorem ssmOver_store (store : String → Option String) : ParameterStore store (ssmOver store) where
  answers := by
    intro _ names _ hmax
    refine ⟨_, if_neg (by omega), fun name => ?_, fun _ p hp name hname => ?_⟩
    · simp only [List.mem_filterMap, Option.map_eq_some_iff]
      constructor
      · intro ⟨p, ⟨n, hn, v, hv, hp⟩, hname⟩
        subst hp
        obtain rfl := Option.some.inj hname
        exact ⟨hn, hv ▸ rfl⟩
      · intro ⟨hn, hsome⟩
        obtain ⟨v, hv⟩ := Option.isSome_iff_exists.mp hsome
        exact ⟨⟨some name, some v⟩, ⟨name, hn, v, hv, rfl⟩, rfl⟩
    · obtain ⟨n, _, hn⟩ := List.mem_filterMap.mp hp
      obtain ⟨v, hv, hp⟩ := Option.map_eq_some_iff.mp hn
      subst hp
      obtain rfl := Option.some.inj hname
      exact hv.symm
  refuses := fun _ _ hmax => ⟨_, if_pos hmax⟩

/-- `web` with a secret of each name. -/
def withSecrets (keys : List String) : ServiceConfig where
  project := "shop"
  service := "web"
  image := "img"
  cpu := 256
  memory := 512
  env := [("PORT", "3000")]
  secretRefs := keys.map fun key => ⟨key, "/launch-pad/default/shop/web/" ++ key⟩
  ingress := none

def storedValue (_ : String) : Option String := some "s3cret"

theorem secrets_resolved_iff_one :
    SecretsResolved storedValue (withSecrets ["API_KEY"]) (resolveServiceEnv (ssmOver storedValue) (withSecrets ["API_KEY"])) :=
  (secrets_resolved_iff (ssmOver_store storedValue) (withSecrets ["API_KEY"])).mpr (.inl (by decide))

def elevenKeys : List String := ["A", "B", "C", "D", "E", "F", "G", "H", "I", "J", "K"]

/-- Eleven secrets, all stored, and no environment. -/
theorem eleven_secrets_refused :
    serviceConfigSchema (withSecrets elevenKeys) = true ∧
      (∀ r ∈ (withSecrets elevenKeys).secretRefs, (storedValue r.ssm).isSome) ∧
      resolveServiceEnv (ssmOver storedValue) (withSecrets elevenKeys) = .error "ssm get-parameters: ValidationException" ∧
      ¬ SecretsResolved storedValue (withSecrets elevenKeys) (resolveServiceEnv (ssmOver storedValue) (withSecrets elevenKeys)) := by
  have hall : ∀ r ∈ (withSecrets elevenKeys).secretRefs, (storedValue r.ssm).isSome := fun _ _ => rfl
  have herror : resolveServiceEnv (ssmOver storedValue) (withSecrets elevenKeys) =
      .error "ssm get-parameters: ValidationException" := rfl
  refine ⟨by decide +kernel, hall, herror, fun h => ?_⟩
  obtain ⟨env, hok, _⟩ := h.found hall
  rw [herror] at hok
  cases hok

/-- The CLI's lookup finds the names that exist, in any number. -/
theorem existing_paths_exact (h : ParameterStore store getParameters) (paths : List String) :
    ∃ found, getExistingSecretPaths getParameters paths = .ok found ∧
      ∀ name, name ∈ found ↔ name ∈ paths ∧ name ≠ "" ∧ (store name).isSome := by
  induction paths using getExistingSecretPaths.induct with
  | case1 => exact ⟨[], by rw [getExistingSecretPaths], by simp⟩
  | case2 path paths ih =>
    obtain ⟨later, hlater, hmem⟩ := ih
    obtain ⟨ps, hps, hnames, _⟩ := h.answers false ((path :: paths).take getParametersMax) (by simp [getParametersMax])
      (List.length_take_le ..)
    refine ⟨namesFound ps ++ later, ?_, fun name => ?_⟩
    · rw [getExistingSecretPaths, hps, hlater]
      rfl
    · have hfound : name ∈ namesFound ps ↔ name ≠ "" ∧ ∃ p ∈ ps, p.name = some name := by
        unfold namesFound
        simp only [List.mem_filterMap, Option.filter_eq_some_iff, decide_eq_true_eq]
        tauto
      have hsplit : name ∈ path :: paths ↔
          name ∈ (path :: paths).take getParametersMax ∨ name ∈ (path :: paths).drop getParametersMax := by
        rw [← List.mem_append, List.take_append_drop]
      rw [List.mem_append, hfound, hmem, hnames, hsplit]
      tauto

end Resolve

end LaunchPad.Agent.Ssm
