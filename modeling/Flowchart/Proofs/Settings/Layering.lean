import Flowchart.Settings.Decode

/-!
# Layers of settings

Settings are reached from the standard by layers in any order and number. The background stands in
two places, in the theme and in what is said about the picture, and several parts of a layer write
it: a theme, single settings of the theme, explicit colours. All of them write both places, so no
layer tells them apart: `InStep` is kept by each part and by each layer.

Settings inside a diagram are decoded when they are applied. How they are decoded is left open, as
none of this depends on it.

A layer only overwrites: what it puts into a field is either fixed by the layer or the old value. So
a second time it finds what it would put in, and changes nothing. Explicit colours come after all
else that writes to the theme.
-/

namespace Flowchart

/-! ## Layers -/

/-- A layer of settings. -/
inductive AnyLayer where
  /-- a settings file -/
  | file (layer : SettingsLayer Float32)
  /-- the settings inside a diagram, which may be unreadable -/
  | init (value : Json)
  /-- the options of a caller -/
  | caller (options : CallerOptions Float32)

/-- Applies a layer of any kind. -/
def Settings.withAny (decode : SettingsDecoder) (s : Settings Float32) :
    AnyLayer → Settings Float32
  | .file layer => s.withLayer layer
  | .init value => s.withInit value decode
  | .caller options => s.withOptions options

/-- The explicit colours of a layer. -/
def AnyLayer.colors (decode : SettingsDecoder) : AnyLayer → ColorOverrides
  | .file layer => layer.colors.getD {}
  | .init value => ((decode value).bind SettingsLayer.colors).getD {}
  | .caller options => options.colors

/-- The explicit colours, each with the setting of a theme that it names; the colour of texts names
two. -/
def ColorOverrides.named {α : Type} (c : ColorOverrides) : List (Option String × (Theme α → String)) :=
  [(c.background, Theme.background), (c.text, Theme.nodeText), (c.text, Theme.text),
    (c.nodeFill, Theme.nodeFill), (c.nodeStroke, Theme.nodeStroke), (c.edgeStroke, Theme.line),
    (c.edgeLabelBackground, Theme.labelBackground), (c.subgraphFill, Theme.blockFill),
    (c.subgraphStroke, Theme.blockStroke)]

/-- Explicit colours are in force once they have been put in. -/
theorem Theme.override_named {α : Type} (t : Theme α) (c : ColorOverrides) :
    ∀ p ∈ c.named, ∀ color, p.1 = some color → p.2 (t.override c) = color := by
  simp +contextual [ColorOverrides.named, Theme.override]

namespace Settings

variable {α : Type} {s : Settings α}

/-! ## The background -/

/-- Theme and picture have the same background. -/
def InStep (s : Settings α) : Prop := s.drawing.background = s.theme.background

theorem InStep.withThemeNamed [Scalar α] (h : s.InStep) (name : Option String) :
    (s.withThemeNamed name).InStep := by
  rw [Settings.withThemeNamed]
  split
  · rfl
  · exact h

theorem InStep.withVariables (h : s.InStep) (v : ThemeVariables α) : (s.withVariables v).InStep :=
  congrArg v.background.getD h

theorem InStep.withColors (h : s.InStep) (c : ColorOverrides) : (s.withColors c).InStep :=
  congrArg c.background.getD h

theorem InStep.withLayer [Scalar α] (h : s.InStep) (l : SettingsLayer α) :
    (s.withLayer l).InStep :=
  ((h.withThemeNamed l.theme).withVariables (l.themeVariables.getD {})).withColors
    (l.colors.getD {})

theorem InStep.withOptions [Scalar α] (h : s.InStep) (c : CallerOptions α) :
    (s.withOptions c).InStep :=
  (h.withThemeNamed c.theme).withColors c.colors

/-- **Every layer** keeps the two backgrounds in step, whether it is read from a file or from a
text. -/
theorem InStep.withAny {s : Settings Float32} (h : s.InStep) (decode : SettingsDecoder)
    (l : AnyLayer) : (s.withAny decode l).InStep := by
  cases l with
  | file layer => exact h.withLayer layer
  | caller options => exact h.withOptions options
  | init value =>
    rw [Settings.withAny, withInit]
    split
    · exact h.withLayer _
    · exact h

/-! ## Applying a layer twice -/

variable [Scalar α]

theorem getD_getD {β : Type} (a : Option β) (x : β) : a.getD (a.getD x) = a.getD x := by
  cases a <;> rfl

/-- Between two writes of the same value another one is lost. -/
theorem getD_getD_getD {β : Type} (a b : Option β) (x : β) :
    a.getD (b.getD (a.getD x)) = a.getD (b.getD x) := by
  cases a <;> cases b <;> rfl

/-- A theme that is found replaces all of the old one, so only without one there are values of the
first time left to be overwritten. -/
theorem withLayer_withLayer (s : Settings α) (l : SettingsLayer α) :
    (s.withLayer l).withLayer l = s.withLayer l := by
  cases h : l.theme.bind (Theme.ofName? (α := α)) with
  | none =>
    simp [withLayer, withThemeNamed, h, withVariables, withFlow, withColors, withLimits,
      Theme.override, getD_getD, getD_getD_getD]
  | some theme =>
    simp [withLayer, withThemeNamed, h, withTheme, withVariables, withFlow, withColors, withLimits,
      Theme.override, getD_getD]

theorem withOptions_withOptions (s : Settings α) (c : CallerOptions α) :
    (s.withOptions c).withOptions c = s.withOptions c := by
  cases h : c.theme.bind (Theme.ofName? (α := α)) with
  | none =>
    simp [withOptions, withThemeNamed, h, withColors, withLimits, Theme.override, getD_getD,
      ← Option.or_assoc]
  | some theme =>
    simp [withOptions, withThemeNamed, h, withTheme, withColors, withLimits, Theme.override,
      getD_getD, ← Option.or_assoc]

/-- **A layer applied twice** is a layer applied once. -/
theorem withAny_withAny (decode : SettingsDecoder) (s : Settings Float32) (l : AnyLayer) :
    (s.withAny decode l).withAny decode l = s.withAny decode l := by
  cases l with
  | file layer => exact withLayer_withLayer s layer
  | caller options => exact withOptions_withOptions s options
  | init value =>
    rw [withAny, withAny, withInit, withInit]
    cases decode value with
    | none => rfl
    | some layer => exact withLayer_withLayer s layer

/-! ## Explicit colours -/

/-- The theme after a layer is one into which the explicit colours of the layer were put. A layer
that cannot be read has none. -/
theorem exists_override (decode : SettingsDecoder) (s : Settings Float32) (l : AnyLayer) :
    ∃ t : Theme Float32, (s.withAny decode l).theme = t.override (l.colors decode) := by
  cases l with
  | file layer => exact ⟨_, rfl⟩
  | caller options => exact ⟨_, rfl⟩
  | init value =>
    rw [withAny, withInit, AnyLayer.colors]
    cases decode value with
    | none => exact ⟨s.theme, rfl⟩
    | some layer => exact ⟨_, rfl⟩

/-! ## Sequences of layers -/

/-- The settings before the first of several layers and after each of them. -/
def stages (decode : SettingsDecoder) (layers : List AnyLayer) : List (Settings Float32) :=
  layers.scanl (withAny decode) standard

theorem InStep.scanl {s : Settings Float32} (h : s.InStep) (decode : SettingsDecoder)
    (layers : List AnyLayer) : ∀ t ∈ layers.scanl (Settings.withAny decode) s, t.InStep := by
  induction layers generalizing s with
  | nil => simpa using h
  | cons l layers ih =>
    rw [List.scanl_cons, List.forall_mem_cons]
    exact ⟨h, ih (h.withAny decode l)⟩

/-- **Layers of settings.** However many layers are put over the standard settings, theme and
picture have the same background after each of them. Whatever the settings were before, a layer that
is applied twice does what it does once, settings inside a diagram that cannot be decoded change
nothing, and the explicit colours of a layer end up in the places of the theme that they name,
whatever else the layer says about the theme. All this holds for every decoder. -/
theorem withAny_layers (decode : SettingsDecoder) :
    (∀ layers, ∀ s ∈ stages decode layers, s.drawing.background = s.theme.background) ∧
    ∀ s : Settings Float32,
      (∀ l, (s.withAny decode l).withAny decode l = s.withAny decode l) ∧
      (∀ value, decode value = none → s.withAny decode (.init value) = s) ∧
      ∀ l : AnyLayer, ∀ p ∈ (l.colors decode).named, ∀ color, p.1 = some color →
        p.2 (s.withAny decode l).theme = color := by
  refine ⟨fun layers => InStep.scanl (s := standard) rfl decode layers, fun s =>
    ⟨withAny_withAny decode s, fun value hvalue => ?_, fun l p hp color hcolor => ?_⟩⟩
  · rw [withAny, withInit, hvalue]
  · obtain ⟨t, ht⟩ := exists_override decode s l
    rw [ht]
    exact t.override_named (l.colors decode) p hp color hcolor

/-- A file with a theme, a single setting and an explicit colour, all for the background. -/
def nightFile : AnyLayer :=
  .file {
    theme := some "dark"
    themeVariables := some { background := some "#111111" }
    colors := some { background := some "#222222" } }

/-- Settings inside a diagram with a wrong type. -/
def wideValue : Json :=
  .object [("theme", .text "forest"), ("flowchart", .object [("nodeSpacing", .text "wide")])]

/-- The file, the settings with a wrong type, and options with another theme and background. -/
def mixedLayers : List AnyLayer :=
  [nightFile, .init wideValue,
    .caller { theme := some " Forest ", colors := { background := some "#333333" } }]

theorem withAny_layers_mixed :
    let decode := SettingsLayer.ofJson?
    (∀ s ∈ stages decode mixedLayers, s.drawing.background = s.theme.background) ∧
    (stages decode mixedLayers).map (fun s => s.drawing.background) =
      ["#FFFFFF", "#222222", "#222222", "#333333"] ∧
    (standard.withAny decode nightFile).withAny decode nightFile =
      standard.withAny decode nightFile ∧
    decode wideValue = none ∧ standard.withAny decode (.init wideValue) = standard ∧
    (standard.withAny decode nightFile).theme.background = "#222222" := by
  obtain ⟨hstep, hlayer⟩ := withAny_layers SettingsLayer.ofJson?
  obtain ⟨htwice, hunread, hcolor⟩ := hlayer standard
  have hnone : SettingsLayer.ofJson? wideValue = none := by rfl
  exact ⟨hstep mixedLayers, by decide +kernel, htwice nightFile, hnone, hunread wideValue hnone,
    hcolor nightFile (some "#222222", Theme.background) (.head _) "#222222" rfl⟩

end Settings

end Flowchart
