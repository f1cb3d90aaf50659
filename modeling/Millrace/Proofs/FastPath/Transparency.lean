import Mathlib.Data.List.Dedup
import Millrace.FastPath.Memo
import Millrace.Proofs.Lambda.Identities

/-!
# Remembered fast paths are fresh ones

A memo finds fast paths by the identities of lambdas, so what it remembers is right only as long as lambdas with the same
identity have the same parameters and the same body.  A memo is sound for some requests (`Memo.Sound`) when its entries
are what compiling would give for every lambda that can ask for them, and when it has one entry for each identity and
schema among the requests.  Every answer keeps it sound (`Memo.get_sound`), whether the fast path is found, made or
declined.

## Main statements

* `memo_transparent`: lambdas that come out of a registry in any way get the answers that compiling anew would give.
-/

namespace Millrace.FastPath

/-- A lambda and the schema of the rows that it is asked for. -/
abbrev Request := Registered × Schema

/-- What a memo sees of a request. -/
def Request.key (q : Request) : LambdaId × Schema := (q.1.id, q.2)

/-- An answer that is as good as compiling anew: there is none exactly where compiling is declined, and a fast path has
the output of a new one and its result on every row. -/
structure IsFresh (q : Request) (answer : Option Compiled) : Prop where
  none_iff : answer = none ↔ ∃ d, compile q.1.lambda q.2 = .error d
  agrees : ∀ c, answer = some c → ∃ new, compile q.1.lambda q.2 = .ok new ∧ c.output = new.output ∧
    ∀ row, c.call row = new.call row

theorem isFresh_compile (q : Request) : IsFresh q (compile q.1.lambda q.2).toOption where
  none_iff := toOption_eq_none_iff
  agrees c hc := ⟨c, toOption_eq_some_iff.1 hc, rfl, fun _ => rfl⟩

namespace Memo

/-- The keys of the entries. -/
def keys (m : Memo) : List (LambdaId × Schema) := m.entries.map Prod.fst

/-- The answers to several requests, one after the other, and the memo afterwards. -/
def serve (m : Memo) : List Request → List (Option Compiled) × Memo
  | [] => ([], m)
  | q :: rest =>
    let (answer, m) := m.get q.1 q.2
    let (answers, m) := m.serve rest
    (answer :: answers, m)

/-- A memo that has answered requests with the keys `served`, all of them for lambdas out of `made`. -/
structure Sound (made : List Registered) (served : List (LambdaId × Schema)) (m : Memo) : Prop where
  entries : ∀ f ∈ made, ∀ schema entry, ((f.id, schema), entry) ∈ m.entries → entry = (compile f.lambda schema).toOption
  nodup : m.keys.Nodup
  keys_iff : ∀ key, key ∈ m.keys ↔ key ∈ served
  counted : m.hits + m.size = served.length

theorem sound_empty (made : List Registered) : Sound made [] {} where
  entries := by simp
  nodup := List.nodup_nil
  keys_iff := by simp [keys]
  counted := rfl

section
variable {made : List Registered} {served : List (LambdaId × Schema)} {m : Memo}

/-- There is one entry for each key that was asked for. -/
theorem Sound.size_eq (h : Sound made served m) : m.size = served.dedup.length := by
  have hperm : m.keys.Perm served.dedup := by
    rw [List.perm_ext_iff_of_nodup h.nodup (List.nodup_dedup served)]
    intro key
    rw [h.keys_iff, List.mem_dedup]
  rw [← hperm.length_eq, keys, List.length_map, size]

theorem mem_of_lookup {key : LambdaId × Schema} {entry : Option Compiled} (h : m.entries.lookup key = some entry) :
    (key, entry) ∈ m.entries := by
  obtain ⟨before, after, hentries, -⟩ := List.lookup_eq_some_iff.1 h
  rw [hentries]
  exact List.mem_append_right _ (List.mem_cons_self ..)

theorem notMem_of_lookup {key : LambdaId × Schema} (h : m.entries.lookup key = none) : key ∉ m.keys := by
  intro hkey
  obtain ⟨p, hp, rfl⟩ := List.mem_map.1 hkey
  exact bne_iff_ne.1 (List.lookup_eq_none_iff.1 h p hp) rfl

/-- An answer is what compiling gives, and leaves the memo sound. -/
theorem get_sound (hsame : ∀ f ∈ made, ∀ g ∈ made, f.id = g.id → f.lambda = g.lambda) (h : Sound made served m)
    {q : Request} (hq : q.1 ∈ made) :
    (m.get q.1 q.2).1 = (compile q.1.lambda q.2).toOption ∧ Sound made (served ++ [q.key]) (m.get q.1 q.2).2 := by
  have hcounted := h.counted
  unfold get
  split
  · next entry hentry =>
    -- the entry was made for the key, perhaps for another lambda of the same identity
    have hmem := mem_of_lookup hentry
    have hkey : q.key ∈ m.keys := List.mem_map.2 ⟨_, hmem, rfl⟩
    refine ⟨h.entries q.1 hq q.2 entry hmem, h.entries, h.nodup, fun key => ?_, ?_⟩
    · change key ∈ m.keys ↔ _
      rw [List.mem_append, List.mem_singleton, ← h.keys_iff]
      constructor
      · exact .inl
      · rintro (hold | rfl)
        · exact hold
        · exact hkey
    · change m.hits + 1 + m.size = _
      rw [List.length_append, List.length_singleton]
      omega
  · next hnone =>
    refine ⟨rfl, fun f hf schema entry hentry => ?_, ?_, fun key => ?_, ?_⟩
    · rcases List.mem_cons.1 hentry with heq | hold
      · injection heq with hkey hentry
        injection hkey with hid hschema
        rw [hentry, hschema, hsame f hf q.1 hq hid]
      · exact h.entries f hf schema entry hold
    · exact List.nodup_cons.2 ⟨notMem_of_lookup hnone, h.nodup⟩
    · change key ∈ q.key :: m.keys ↔ _
      rw [List.mem_append, List.mem_singleton, List.mem_cons, h.keys_iff, or_comm]
    · change m.hits + (m.entries.length + 1) = _
      rw [List.length_append, List.length_singleton, ← hcounted]
      rfl

/-- All answers are fresh, and the memo stays sound. -/
theorem serve_sound (hsame : ∀ f ∈ made, ∀ g ∈ made, f.id = g.id → f.lambda = g.lambda) {requests : List Request}
    (hrequests : ∀ q ∈ requests, q.1 ∈ made) (h : Sound made served m) :
    List.Forall₂ IsFresh requests (m.serve requests).1 ∧
      Sound made (served ++ requests.map Request.key) (m.serve requests).2 := by
  induction requests generalizing served m with
  | nil => exact ⟨.nil, by rwa [List.map_nil, List.append_nil]⟩
  | cons q requests ih =>
    obtain ⟨hanswer, hsound⟩ := get_sound hsame h (hrequests q (List.mem_cons_self ..))
    obtain ⟨hanswers, hsounds⟩ := ih (fun p hp => hrequests p (List.mem_cons_of_mem _ hp)) hsound
    have hfresh : IsFresh q (m.get q.1 q.2).1 := by
      rw [hanswer]
      exact isFresh_compile q
    exact ⟨.cons hfresh hanswers, by rwa [List.append_assoc] at hsounds⟩

end
end Memo

/-- Lambdas with the same identity have the same parameters and the same body, however they were made.  So a memo that
starts empty answers every request for them as compiling anew would; it has as many entries as there are different
identities and schemas among the requests, and all other requests are hits. -/
theorem memo_transparent (registry : Registry) (calls : List MakeCall) :
    let made := (Workshop.run ⟨registry, []⟩ calls).made
    (∀ f ∈ made, ∀ g ∈ made, f.id = g.id →
      f.lambda.params = g.lambda.params ∧ f.lambda.body = g.lambda.body) ∧
      ∀ requests : List Request, (∀ q ∈ requests, q.1 ∈ made) →
        let (answers, m) := ({} : Memo).serve requests
        List.Forall₂ IsFresh requests answers ∧ m.size = (requests.map Request.key).dedup.length ∧
          m.hits + m.size = requests.length := by
  intro made
  have hmade := Workshop.sound_run registry calls
  refine ⟨fun f hf g hg hid => ?_, fun requests hrequests => ?_⟩
  · rw [hmade.same f hf g hg hid]
    exact ⟨rfl, rfl⟩
  · obtain ⟨hanswers, hsound⟩ := Memo.serve_sound hmade.same hrequests (Memo.sound_empty made)
    refine ⟨hanswers, hsound.size_eq, ?_⟩
    rw [hsound.counted, List.nil_append, List.length_map]

/-- A lambda, its copy and the same lambda made again: the copy has the identity of the first, so of the four requests
one is a hit.  Without a schema there is no fast path, and that is remembered too. -/
theorem memo_transparent_copy :
    let f : Registered := ⟨1, ⟨["x"], .param 0, none⟩⟩
    let g : Registered := ⟨2, ⟨["x"], .param 0, none⟩⟩
    let made := (Workshop.run ⟨{}, []⟩ [.build ["x"] (.param 0), .copy 0, .build ["x"] (.param 0)]).made
    let requests : List Request := [(f, .row [.float]), (f, .row [.float]), (g, .row [.float]), (f, .unspecialized)]
    let (answers, m) := ({} : Memo).serve requests
    made = [f, f, g] ∧ f.lambda.body = .param 0 ∧ List.Forall₂ IsFresh requests answers ∧
      answers.map Option.isSome = [true, true, true, false] ∧ m.size = 3 ∧ m.hits + 3 = 4 := by
  intro f g made requests
  have hmade : made = [f, f, g] := rfl
  obtain ⟨hsame, hserve⟩ := memo_transparent {} [.build ["x"] (.param 0), .copy 0, .build ["x"] (.param 0)]
  have hrequests : ∀ q ∈ requests, q.1 ∈ made := by
    rw [hmade]
    simp [requests]
  have hf : f ∈ made := by
    rw [hmade]
    exact List.mem_cons_self ..
  obtain ⟨hanswers, hsize, hhits⟩ := hserve requests hrequests
  have hkeys : (requests.map Request.key).dedup.length = 3 := by decide
  rw [hkeys] at hsize
  rw [hsize] at hhits
  exact ⟨hmade, (hsame f hf f hf rfl).2, hanswers, rfl, hsize, hhits⟩

end Millrace.FastPath
