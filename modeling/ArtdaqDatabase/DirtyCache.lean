import ArtdaqDatabase.InPlaceUpdate

/-!
# Cached texts with a dirty flag

A value is kept with a text rendered from it and a flag that asks for a new text.
Updates of the value set the flag; an update that bypasses it leaves the text as
it is.  What the text was rendered from is followed beside the cache, so that a
run may say whether a bypassing update matters.
-/

namespace DirtyCache

open InPlaceUpdate

structure Cached (σ τ : Type) where
  value : σ
  text : τ
  dirty : Bool
  deriving DecidableEq

section

variable {ε σ τ α : Type} (render : σ → Except ε τ)

/-- The text, rendered anew where the flag asks for it. -/
def read : InPlace ε (Cached σ τ) τ := do
  if ← fetch fun c => .ok c.dirty then
    let text ← fetch fun c => render c.value
    write fun c => { c with text := text, dirty := false }
  fetch fun c => .ok c.text

/-- An update that may fail sets the flag once it has succeeded. -/
def update (f : σ → Except ε σ) : InPlace ε (Cached σ τ) Unit := do
  let value ← fetch fun c => f c.value
  write fun c => { c with value := value, dirty := true }

/-- An update through a reference to the value. -/
def bypass (f : σ → σ) (c : Cached σ τ) : Cached σ τ :=
  { c with value := f c.value }

/-- Ask for a new text. -/
def mark (c : Cached σ τ) : Cached σ τ :=
  { c with dirty := true }

/-- A text that is not asked to be renewed was rendered from this value. -/
def RenderedFrom (printed : σ) (c : Cached σ τ) : Prop :=
  c.dirty = false → render printed = .ok c.text

/-- The text can be returned as that of the value. -/
def Coherent (c : Cached σ τ) : Prop :=
  RenderedFrom render c.value c

variable {render}

theorem read_clean {c : Cached σ τ} (hc : c.dirty = false) : read render c = .ok c.text c := by
  obtain ⟨value, text, dirty⟩ := c
  cases hc
  rfl

theorem read_dirty {c : Cached σ τ} (hc : c.dirty = true) :
    read render c =
      match render c.value with
      | .ok text => .ok text ⟨c.value, text, false⟩
      | .error e => .error e c := by
  obtain ⟨value, text, dirty⟩ := c
  cases hc
  cases h : render value with
  | ok t => simp [read, fetch, lift, write, bind, EStateM.bind, h, pure, EStateM.pure]
  | error e =>
      have hfetch : fetch (fun c : Cached σ τ => render c.value) ⟨value, text, true⟩ =
          .error e ⟨value, text, true⟩ := fetch_error h
      have hdirty : fetch (fun c : Cached σ τ => (.ok c.dirty : Except ε Bool)) ⟨value, text, true⟩ =
          .ok true ⟨value, text, true⟩ := fetch_ok rfl
      simp [read, bind, EStateM.bind, hfetch, hdirty]

/-- A coherent cache returns the text of its value. -/
theorem Coherent.read_ok
    {c c' : Cached σ τ} {text : τ} (hc : Coherent render c)
    (h : read render c = .ok text c') : render c.value = .ok text := by
  cases hdirty : c.dirty with
  | false =>
      rw [read_clean hdirty] at h
      cases h
      exact hc hdirty
  | true =>
      rw [read_dirty hdirty] at h
      cases hrender : render c.value with
      | ok t =>
          rw [hrender] at h
          cases h
          rfl
      | error e =>
          rw [hrender] at h
          cases h

theorem value_after_read (c : Cached σ τ) : (after (read render) c).value = c.value := by
  cases hdirty : c.dirty with
  | false => rw [after_of_ok (read_clean hdirty)]
  | true =>
      have h : read render c = _ := read_dirty hdirty
      cases hrender : render c.value with
      | ok t =>
          rw [hrender] at h
          rw [after_of_ok h]
      | error e =>
          rw [hrender] at h
          rw [after_of_error h]

/-- A text that was returned is the one in the cache, and needs no renewal. -/
theorem renderedFrom_after_read
    {printed : σ} {c : Cached σ τ} (hc : RenderedFrom render printed c) :
    RenderedFrom render (if c.dirty then c.value else printed) (after (read render) c) := by
  cases hdirty : c.dirty with
  | false =>
      rw [after_of_ok (read_clean hdirty)]
      exact hc
  | true =>
      have h : read render c = _ := read_dirty hdirty
      cases hrender : render c.value with
      | ok t =>
          rw [hrender] at h
          rw [after_of_ok h]
          exact fun _ => hrender
      | error e =>
          rw [hrender] at h
          rw [after_of_error h]
          intro hclean
          rw [hdirty] at hclean
          cases hclean

theorem update_run {f : σ → Except ε σ} {c : Cached σ τ} {value : σ} (hf : f c.value = .ok value) :
    update f c = .ok () { c with value := value, dirty := true } := by
  have hfetch : fetch (fun c : Cached σ τ => f c.value) c = .ok value c := fetch_ok hf
  rw [update, bind_run hfetch, write_run]

/-- A failed update leaves everything as it was. -/
theorem update_refused {f : σ → Except ε σ} {c : Cached σ τ} {e : ε} (hf : f c.value = .error e) :
    update f c = .error e c := by
  have hfetch : fetch (fun c : Cached σ τ => f c.value) c = .error e c := fetch_error hf
  rw [update, bind_error hfetch]

theorem renderedFrom_of_dirty {printed : σ} {c : Cached σ τ} (hc : c.dirty = true) :
    RenderedFrom render printed c := by
  intro hclean
  rw [hc] at hclean
  cases hclean

theorem renderedFrom_after_update
    {printed : σ} (f : σ → Except ε σ) {c : Cached σ τ} (hc : RenderedFrom render printed c) :
    RenderedFrom render printed (after (update f) c) := by
  cases hf : f c.value with
  | ok value =>
      rw [after_of_ok (update_run hf)]
      exact renderedFrom_of_dirty rfl
  | error e =>
      rw [after_of_error (update_refused hf)]
      exact hc

theorem coherent_after_update
    (f : σ → Except ε σ) {c : Cached σ τ} (hc : Coherent render c) :
    Coherent render (after (update f) c) := by
  cases hf : f c.value with
  | ok value =>
      rw [after_of_ok (update_run hf)]
      exact renderedFrom_of_dirty rfl
  | error e =>
      rw [after_of_error (update_refused hf)]
      exact hc

end

end DirtyCache
