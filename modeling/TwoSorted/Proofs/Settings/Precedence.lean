import TwoSorted.Settings
import TwoSorted.Settings.EnvFile

/-!
# Which file a value comes from

What a file says about names is a layer, and the environment at the start is a
layer on top of all of them. A name has after the loading the value that the
topmost layer gives it, so a name that was set keeps its value, even an empty
one, and of two files the earlier counts (`load_layers`). Paths at which there
is nothing do not take part (`loadFiles_present`). A file that cannot be opened,
read or decoded ends the loading, with the environment that the files before it
leave.

The settings are read from the environment that is reached and from nothing
else. A value that is no truth value where one is wanted makes them fail, and
the environment stays loaded then (`ofEnvironment_eq`). No setting is given
beside a fault.
-/

namespace TwoSorted

namespace Environment

/-- Adding layers one after the other, each below those before it, gives a
name the value of the topmost layer that has one. -/
theorem foldl_addMissing (env : Environment) (layers : List Environment) (x : String) :
    layers.foldl addMissing env x = (env :: layers).findSome? (· x) := by
  induction layers generalizing env with
  | nil => cases h : env x <;> simp [h]
  | cons layer layers ih =>
    rw [List.foldl_cons, ih]
    cases h : env x <;> simp [List.findSome?_cons, addMissing, h]

end Environment

namespace Settings

section

variable (decode : List UInt8 → Except String Bindings)

/-- What is found at a path says this about names, or this is why it cannot be
loaded. -/
def layer : Opened → Except LoadFault Environment
  | .file bytes => ((decode bytes).map .ofBindings).mapError .malformed
  | .directory => .error (.unreadable Opened.isDirectory)
  | .broken _ reason => .error (.unreadable reason)
  | .refused why => .error (.unopened why)

/-- The paths that are not skipped. -/
def present (find : String → Option Opened) (paths : List String) : List String :=
  paths.filter fun path => (find path).isSome

/-- Something is at each of the paths and can be loaded, and the layers are what
it says. -/
def Layered (find : String → Option Opened) (paths : List String)
    (layers : List Environment) : Prop :=
  paths.map (fun path => (find path).map (layer decode)) = layers.map fun l => some (.ok l)

/-! ### One file -/

theorem layer_file {bytes : List UInt8} {known : Bindings}
    (h : (decode bytes).toOption = some known) :
    layer decode (.file bytes) = .ok (.ofBindings known) := by
  rw [layer]
  cases hdecode : decode bytes with
  | error message =>
    rw [hdecode] at h
    cases h
  | ok bindings =>
    rw [hdecode] at h
    cases h
    rfl

theorem loadFile_eq (env : Environment) (found : Opened) :
    loadFile decode env found = (layer decode found).map env.addMissing := by
  cases found with
  | file bytes =>
    simp only [loadFile, layer]
    cases decode bytes <;> rfl
  | directory => rfl
  | broken bytes reason => rfl
  | refused why => rfl

/-! ### All files -/

variable {decode} {find : String → Option Opened}

theorem loadFiles_present (env : Environment) (paths : List String) :
    loadFiles decode find env (present find paths) = loadFiles decode find env paths := by
  induction paths generalizing env with
  | nil => rfl
  | cons path rest ih =>
    cases h : find path with
    | none =>
      have hskip : present find (path :: rest) = present find rest := by simp [present, h]
      rw [hskip, ih]
      simp [loadFiles, h]
    | some found =>
      have hkeep : present find (path :: rest) = path :: present find rest := by
        simp [present, h]
      rw [hkeep, loadFiles, loadFiles, h]
      dsimp only
      cases loadFile decode env found with
      | ok env => exact ih env
      | error fault => rfl

theorem loadFiles_append {before : List String} {layers : List Environment} (env : Environment)
    (rest : List String) (h : Layered decode find before layers) :
    loadFiles decode find env (before ++ rest) =
      loadFiles decode find (layers.foldl Environment.addMissing env) rest := by
  induction before generalizing env layers with
  | nil =>
    obtain rfl : layers = [] := by simpa [Layered] using h
    rfl
  | cons path before ih =>
    obtain _ | ⟨more, layers⟩ := layers
    · simp [Layered] at h
    · obtain ⟨⟨found, hfound, hmore⟩, hrest⟩ :
          (∃ found, find path = some found ∧ layer decode found = .ok more) ∧
            Layered decode find before layers := by
        simpa [Layered] using h
      rw [List.cons_append, loadFiles, hfound]
      dsimp only
      rw [loadFile_eq, hmore]
      exact ih _ hrest

theorem loadFiles_of_layered {env : Environment} {paths : List String} {layers : List Environment}
    (h : Layered decode find (present find paths) layers) :
    loadFiles decode find env paths = (none, layers.foldl Environment.addMissing env) := by
  have hloaded := loadFiles_append env [] h
  rwa [List.append_nil, loadFiles_present] at hloaded

/-- The first file that cannot be loaded ends the loading. -/
theorem loadFiles_of_fault {env : Environment} {paths before after : List String} {path : String}
    {found : Opened} {layers : List Environment} {fault : LoadFault}
    (hsplit : present find paths = before ++ path :: after)
    (hbefore : Layered decode find before layers)
    (hfound : find path = some found) (hfault : layer decode found = .error fault) :
    loadFiles decode find env paths =
      (some (.load path fault), layers.foldl Environment.addMissing env) := by
  rw [← loadFiles_present, hsplit, loadFiles_append _ _ hbefore, loadFiles, hfound]
  dsimp only
  rw [loadFile_eq, hfault]
  rfl

end

/-! ### The settings -/

/-- The value of a name that is wanted to be a truth value and is none. -/
def invalid? (env : Environment) (name : String) : Option String :=
  (env name).filter fun value => value ≠ "" ∧ bool? value = none

/-- The first name whose value should be a truth value and is none. -/
def firstInvalid? (env : Environment) : Option (String × String) :=
  [debugVariable, noColorVariable].findSome? fun name => (invalid? env name).map (name, ·)

/-- The settings of an environment in which every truth value is one. -/
def read (env : Environment) : Settings where
  history := (env historyVariable).getD ""
  prompt := ((env promptVariable).filter (· ≠ "")).getD defaultPrompt
  debug := ((env debugVariable).bind bool?).getD false
  noColor := ((env noColorVariable).bind bool?).getD false

theorem flag_eq (env : Environment) (name : String) :
    flag env name = match invalid? env name with
      | some value => .error (.invalid name value)
      | none => .ok (((env name).bind bool?).getD false) := by
  cases hvalue : env name with
  | none => simp [flag, invalid?, hvalue]
  | some value =>
    by_cases hempty : value = ""
    · subst hempty
      simp [flag, invalid?, hvalue, bool?, Option.filter]
    · cases hbool : bool? value <;>
        simp [flag, invalid?, hvalue, hempty, hbool, Option.filter]

theorem ofEnvironment_eq (env : Environment) :
    ofEnvironment env = match firstInvalid? env with
      | some (name, value) => .error (.invalid name value)
      | none => .ok (read env) := by
  have hprompt : (if ((env promptVariable).getD "").isEmpty then defaultPrompt
      else (env promptVariable).getD "") = (read env).prompt := by
    cases h : env promptVariable with
    | none => simp [read, h]
    | some prompt => by_cases hempty : prompt = "" <;> simp [read, h, hempty, Option.filter]
  simp only [ofEnvironment, flag_eq, hprompt, firstInvalid?, List.findSome?]
  cases invalid? env debugVariable with
  | some value => rfl
  | none => cases invalid? env noColorVariable <;> rfl

/-- When every file is loaded, the environment that is reached gives the
settings. -/
theorem load_of_loadFiles {decode : List UInt8 → Except String Bindings}
    {find : String → Option Opened} {env reached : Environment} {paths : List String}
    (h : loadFiles decode find env paths = (none, reached)) :
    (load decode find env paths).environment = reached ∧
      match firstInvalid? reached with
      | some (name, value) =>
        (load decode find env paths).settings = zero ∧
          (load decode find env paths).fault = some (.invalid name value)
      | none =>
        (load decode find env paths).settings = read reached ∧
          (load decode find env paths).fault = none := by
  rw [load, h]
  dsimp only
  rw [ofEnvironment_eq]
  cases firstInvalid? reached <;> exact ⟨rfl, rfl, rfl⟩

/-- After the loading of files that can all be loaded, each name has the value
that the topmost layer gives it, where the environment at the start is the
topmost of all, and the settings are those of that environment: its first
invalid truth value is the fault, if there is one. If a file cannot be loaded,
for whatever reason, the first such file is the fault, and the environment is
the one that loading the files before it gives. Beside a fault the settings are
zero, and its message names the file or the variable. -/
theorem load_layers (decode : List UInt8 → Except String Bindings)
    (find : String → Option Opened) (env : Environment) (paths : List String) :
    (∀ layers, Layered decode find (present find paths) layers →
      (∀ x, (load decode find env paths).environment x = (env :: layers).findSome? (· x)) ∧
      match firstInvalid? (load decode find env paths).environment with
      | some (name, value) =>
        (load decode find env paths).settings = zero ∧
          (load decode find env paths).fault = some (.invalid name value)
      | none =>
        (load decode find env paths).settings = read (load decode find env paths).environment ∧
          (load decode find env paths).fault = none) ∧
    (∀ before path after found layers fault, present find paths = before ++ path :: after →
      Layered decode find before layers → find path = some found →
      layer decode found = .error fault →
      load decode find env paths =
        ⟨zero, some (.load path fault), (load decode find env before).environment⟩) ∧
    (∀ path fault, ∃ why, (Fault.load path fault).message = "loading " ++ path ++ ": " ++ why) ∧
    ∀ name value, (Fault.invalid name value).message =
      "invalid value " ++ quote value ++ " for " ++ name := by
  refine ⟨?_, ?_, fun path fault => ⟨_, rfl⟩, fun name value => rfl⟩
  · intro layers hlayers
    obtain ⟨hreached, hsettings⟩ := load_of_loadFiles (loadFiles_of_layered hlayers)
    rw [hreached]
    exact ⟨Environment.foldl_addMissing env layers, hsettings⟩
  · intro before path after found layers fault hsplit hbefore hfound hfault
    have hloaded := loadFiles_append env [] hbefore
    rw [List.append_nil] at hloaded
    rw [(load_of_loadFiles hloaded).1, load,
      loadFiles_of_fault hsplit hbefore hfound hfault]

/-- Two files give a value to `B`, and the earlier counts; `A` was set to the
empty text before, and stays so. The second file has a name with a stray byte
and a bad truth value. A directory between the files ends the loading, and so
does a file that may not be opened. -/
theorem load_layers_two_files :
    ∃ (find : String → Option Opened) (env : Environment) (layers : List Environment),
      Layered EnvFile.decode find (present find ["site", "absent", "user"]) layers ∧
      ["A", "B", "C"].map env = [some "", none, none] ∧
      ["A", "B", "C"].map (load EnvFile.decode find env ["site", "absent", "user"]).environment =
        [some "", some "1", none] ∧
      (load EnvFile.decode find env ["site", "absent", "user"]).settings = zero ∧
      (load EnvFile.decode find env ["site", "absent", "user"]).fault =
        some (.invalid debugVariable "2") ∧
      load EnvFile.decode find env ["site", "absent", "folder", "user"] =
        ⟨zero, some (.load "folder" (.unreadable "is a directory")),
          (load EnvFile.decode find env ["site"]).environment⟩ ∧
      load EnvFile.decode find env ["site", "locked"] =
        ⟨zero, some (.load "locked" (.unopened (.other "permission denied"))),
          (load EnvFile.decode find env ["site"]).environment⟩ := by
  obtain ⟨site, hsite⟩ : ∃ bytes, layer EnvFile.decode (.file bytes) =
      .ok (.ofBindings [("B", "1"), ("A", "0")]) :=
    ⟨"A=0\nB=1".toUTF8.toList, layer_file _ (by decide +kernel)⟩
  obtain ⟨user, huser⟩ : ∃ bytes, layer EnvFile.decode (.file bytes) =
      .ok (.ofBindings [("ARITH_DEBUG", "2"), ("B", "3"), ("A\uFFFD", "1")]) :=
    ⟨[0x41, 0xFF, 0x3D, 0x31, 0x0A] ++ "B=3\nARITH_DEBUG=2".toUTF8.toList,
      layer_file _ (by decide +kernel)⟩
  obtain ⟨find, hfind₁, hfind₂, hfind₃, hfind₄, hfind₅⟩ : ∃ find : String → Option Opened,
      find "site" = some (.file site) ∧ find "absent" = none ∧
      find "folder" = some .directory ∧ find "user" = some (.file user) ∧
      find "locked" = some (.refused (.other "permission denied")) :=
    ⟨fun path => List.lookup path [("site", .file site), ("user", .file user),
      ("folder", .directory), ("locked", .refused (.other "permission denied"))],
      by simp [List.lookup_cons]⟩
  have hlayers : Layered EnvFile.decode find (present find ["site", "absent", "user"])
      [.ofBindings [("B", "1"), ("A", "0")],
        .ofBindings [("ARITH_DEBUG", "2"), ("B", "3"), ("A\uFFFD", "1")]] := by
    simp [Layered, present, hfind₁, hfind₂, hfind₄, hsite, huser]
  have hfirst : Layered EnvFile.decode find ["site"] [.ofBindings [("B", "1"), ("A", "0")]] := by
    simp [Layered, hfind₁, hsite]
  obtain ⟨hvalues, hsettings⟩ :=
    (load_layers EnvFile.decode find (Environment.empty.set "A" (some "")) _).1 _ hlayers
  have hinvalid : firstInvalid? (load EnvFile.decode find (Environment.empty.set "A" (some ""))
      ["site", "absent", "user"]).environment = some (debugVariable, "2") := by
    simp [firstInvalid?, invalid?, hvalues, List.findSome?_cons, Environment.set,
      Environment.empty, Environment.ofBindings, List.lookup_cons, debugVariable, bool?,
      Option.filter]
  rw [hinvalid] at hsettings
  refine ⟨find, Environment.empty.set "A" (some ""), _, hlayers, by decide +kernel, ?_,
    hsettings.1, hsettings.2, ?_, ?_⟩
  · simp [hvalues, List.findSome?_cons, Environment.set, Environment.empty,
      Environment.ofBindings, List.lookup_cons]
  · refine (load_layers EnvFile.decode find _ _).2.1 ["site"] "folder" ["user"] .directory _ _
      ?_ hfirst hfind₃ rfl
    simp [present, hfind₁, hfind₂, hfind₃, hfind₄]
  · refine (load_layers EnvFile.decode find _ _).2.1 ["site"] "locked" [] _ _ _ ?_ hfirst hfind₅
      rfl
    simp [present, hfind₁, hfind₅]

end Settings

end TwoSorted
