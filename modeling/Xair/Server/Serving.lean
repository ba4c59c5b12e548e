import Xair.Library.Solo
import Xair.Server.Endpoints

/-!
# Requests by themselves

A request whose every step is done at once, with nothing in between. As for the runtime,
every rule is an equivalence, and a handler is unfolded from its first step to its last.
-/

namespace Xair

open Library

section

variable [PyText] {cfg : SiteConfig} {α β : Type}

/-- How the handler ends, and the site it leaves. -/
def result (m : Handler cfg α) (s : Site) : Except HttpError α × Site :=
  (((m.program ()).serve s).1.1, ((m.program ()).serve s).2)

theorem result_pure (a : α) (s : Site) : result (pure a : Handler cfg α) s = (.ok a, s) := rfl

theorem result_throw (e : HttpError) (s : Site) : result (throw e : Handler cfg α) s = (.error e, s) := rfl

theorem result_bind (m : Handler cfg β) (f : β → Handler cfg α) (s : Site) : result (m >>= f) s =
    match result m s with
    | (.ok b, s') => result (f b) s'
    | (.error e, s') => (.error e, s') := by
  have run : ((m >>= f : Handler cfg α).program ()).serve s = _ := Prog.serve_bind (m.program ()) _ s
  simp only [result, run]
  rcases (m.program ()).serve s with ⟨⟨b | e, l⟩, s'⟩
  · rfl
  · rfl

theorem result_tryCatch (m : Handler cfg α) (f : HttpError → Handler cfg α) (s : Site) : result (tryCatch m f) s =
    match result m s with
    | (.ok a, s') => (.ok a, s')
    | (.error e, s') => result (f e) s' := by
  have run : ((tryCatch m f : Handler cfg α).program ()).serve s = _ := Prog.serve_bind (m.program ()) _ s
  simp only [result, run]
  rcases (m.program ()).serve s with ⟨⟨b | e, l⟩, s'⟩
  · rfl
  · rfl

theorem result_step (c : SiteCommand) (s : Site) :
    result (step c : Handler cfg c.Reply) s = (.ok (Site.exec cfg c s).1, (Site.exec cfg c s).2) := rfl

theorem result_attempted (c : SiteCommand) (s : Site) :
    result (attempted c : Handler cfg (Option c.Reply)) s = (.ok (some (Site.exec cfg c s).1), (Site.exec cfg c s).2) := rfl

/-- The handler answers in a site with `ok`, or fails in one with `failed`. -/
def Serves (m : Handler cfg α) (s : Site) (ok : α → Site → Prop) (failed : HttpError → Site → Prop) : Prop :=
  match result m s with
  | (.ok a, s') => ok a s'
  | (.error e, s') => failed e s'

variable {s : Site} {ok : α → Site → Prop} {failed : HttpError → Site → Prop}

theorem serves_pure {a : α} : Serves (pure a : Handler cfg α) s ok failed ↔ ok a s := Iff.rfl

theorem serves_throw {e : HttpError} : Serves (throw e : Handler cfg α) s ok failed ↔ failed e s := Iff.rfl

theorem serves_bind {m : Handler cfg β} {f : β → Handler cfg α} :
    Serves (m >>= f) s ok failed ↔ Serves m s (fun b s' => Serves (f b) s' ok failed) failed := by
  rw [Serves, Serves, result_bind]
  rcases result m s with ⟨b | e, s'⟩
  · rfl
  · rfl

theorem serves_tryCatch {m : Handler cfg α} {f : HttpError → Handler cfg α} :
    Serves (tryCatch m f) s ok failed ↔ Serves m s ok fun e s' => Serves (f e) s' ok failed := by
  rw [Serves, Serves, result_tryCatch]
  rcases result m s with ⟨b | e, s'⟩
  · rfl
  · rfl

theorem serves_step {c : SiteCommand} {ok : c.Reply → Site → Prop} :
    Serves (step c : Handler cfg c.Reply) s ok failed ↔ ok (Site.exec cfg c s).1 (Site.exec cfg c s).2 := Iff.rfl

theorem serves_attempted {c : SiteCommand} {ok : Option c.Reply → Site → Prop} :
    Serves (attempted c : Handler cfg (Option c.Reply)) s ok failed ↔ ok (some (Site.exec cfg c s).1) (Site.exec cfg c s).2 :=
  Iff.rfl

/-- A step, and what follows it. -/
theorem serves_step_bind {c : SiteCommand} {f : c.Reply → Handler cfg α} :
    Serves (step c >>= f) s ok failed ↔ Serves (f (Site.exec cfg c s).1) (Site.exec cfg c s).2 ok failed := serves_bind

theorem serves_attempted_bind {c : SiteCommand} {f : Option c.Reply → Handler cfg α} :
    Serves (attempted c >>= f) s ok failed ↔ Serves (f (some (Site.exec cfg c s).1)) (Site.exec cfg c s).2 ok failed := serves_bind

theorem serves_answered {reply : Except RuntimeError α} : Serves (answered reply : Handler cfg α) s ok failed ↔
    match reply with
    | .ok a => ok a s
    | .error e => failed e.http s := by
  cases reply <;> exact Iff.rfl

/-- Consequence. -/
theorem Serves.imp {m : Handler cfg α} {ok' : α → Site → Prop} {failed' : HttpError → Site → Prop} (h : Serves m s ok failed)
    (answers : ∀ a s', ok a s' → ok' a s') (fails : ∀ e s', failed e s' → failed' e s') : Serves m s ok' failed' := by
  rw [Serves] at h ⊢
  rcases served : result m s with ⟨b | e, s'⟩ <;> rw [served] at h
  · exact fails _ _ h
  · exact answers _ _ h

theorem Serves.and {m : Handler cfg α} {ok' : α → Site → Prop} {failed' : HttpError → Site → Prop} (h : Serves m s ok failed)
    (h' : Serves m s ok' failed') : Serves m s (fun a s' => ok a s' ∧ ok' a s') fun e s' => failed e s' ∧ failed' e s' := by
  rw [Serves] at h h' ⊢
  rcases served : result m s with ⟨b | e, s'⟩ <;> rw [served] at h h'
  · exact ⟨h, h'⟩
  · exact ⟨h, h'⟩

/-- What every step of the handler only moves along. -/
theorem Serves.of_sends {sent : SiteCommand → Prop} {R : Site → Site → Prop} {m : Handler cfg α} (sends : Method.Sends sent m)
    (refl : ∀ s, R s s) (trans : ∀ s s' s'', R s s' → R s' s'' → R s s'')
    (command : ∀ c s, sent c → R s (Site.exec cfg c s).2) : Serves m s (fun _ => R s) fun _ => R s := by
  have along : R s (result m s).2 := by
    have executes := Executes.of_serve (S := site cfg) (fun _ => rfl) (m.program ()) s
    exact executes.along refl trans (fun s s' same => same ▸ refl s) command (sends ())
  rw [Serves]
  rcases served : result m s with ⟨b | e, s'⟩ <;> rw [served] at along
  · exact along
  · exact along


end

end Xair
