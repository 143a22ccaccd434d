import GrowthOrder.Construct.Read
import Mathlib.Data.List.Forall2

/-!
# The calls in a stream of tokens

A call takes the tokens behind its opening parenthesis up to the one that closes it, or up to a
semicolon, a brace or the end of the tokens if none does. A call among these is read as one of the
arguments and takes its own tokens out of them. The sites of a stream are its calls in the order in
which they begin, each with the tokens that it takes.
-/
namespace GrowthOrder

/-- A call in a stream of tokens. -/
structure CallSite where
  name : Token
  /-- The tokens that are taken for the call behind its opening parenthesis. -/
  arguments : List Token
  deriving DecidableEq

namespace Arguments

/-- The texts of the tokens that are taken, with the closing parenthesis if it is there. -/
def taken : Arguments → List String
  | done closed => if closed then [")"] else []
  | word text rest => text :: rest.taken
  | call name inner rest => name :: "(" :: (inner.taken ++ rest.taken)

/-- Whether the closing parenthesis is there. -/
def isClosed : Arguments → Bool
  | done closed => closed
  | word _ rest => rest.isClosed
  | call _ _ rest => rest.isClosed

/-- The calls among the arguments, each before those inside it. -/
def calls : Arguments → List (String × Arguments)
  | done _ => []
  | word _ rest => rest.calls
  | call name inner rest => (name, inner) :: (inner.calls ++ rest.calls)

/-- The sites of the calls among arguments that are read from these tokens. -/
def sites : Arguments → List Token → List CallSite
  | word _ rest, _ :: ts => rest.sites ts
  | call _ inner rest, name :: _ :: ts =>
    ⟨name, ts.take inner.taken.length⟩ ::
      (inner.sites ts ++ rest.sites (ts.drop inner.taken.length))
  | _, _ => []

/-- The texts at which arguments end if no parenthesis closes them. -/
def stops : List String := [";", "\x7b", "\x7d"]

/-- The first texts end with a closing parenthesis, or the second ones begin where arguments
end. -/
def Parted (xs ys : List String) : Prop :=
  xs.getLast? = some ")" ∨ ∀ y ∈ ys.head?, y ∈ stops

/-- Every call among the arguments is parted from what is behind it. -/
def Orderly : Arguments → Prop
  | done _ => True
  | word _ rest => rest.Orderly
  | call _ inner rest => Parted inner.taken rest.taken ∧ inner.Orderly ∧ rest.Orderly

/-! ## The tokens that are taken -/

/-- Reading counts the tokens whose texts it takes. -/
theorem taken_read (d : Dialect) (depth : Nat) (ts : List Token) :
    (read d depth ts).1.taken = (ts.take (read d depth ts).2).map (·.text) ∧
      (read d depth ts).1.taken.length = (read d depth ts).2 := by
  fun_induction read d depth ts with
  | case1 => exact ⟨rfl, rfl⟩
  | case2 => exact ⟨rfl, rfl⟩
  | case3 depth t rest hstop hclose =>
    have htext : t.text = ")" := beq_iff_eq.1 hclose.2
    exact ⟨by simp [taken, htext], rfl⟩
  | case4 depth t rest hstop hclose inner hcall arguments n harguments more m hmore ih ih' =>
    rw [harguments] at ih
    rw [hmore] at ih'
    obtain ⟨hinner, hn⟩ : arguments.taken = _ ∧ arguments.taken.length = n := ih
    obtain ⟨hrest, hm⟩ : more.taken = _ ∧ more.taken.length = m := ih'
    cases rest with
    | nil => cases (Bool.and_eq_true_iff.1 hcall).2
    | cons paren rest =>
      have hparen : paren.text = "(" := beq_iff_eq.1 (Bool.and_eq_true_iff.1 hcall).2
      have htake : rest.take (n + m) = rest.take n ++ (rest.drop n).take m := List.take_add
      constructor
      · rw [taken, hinner, hrest]
        simp [hparen, htake]
      · simp only [taken, List.length_cons, List.length_append]
        omega
  | case5 depth t rest hstop hclose inner hcall more m hmore ih =>
    rw [hmore] at ih
    obtain ⟨hrest, hm⟩ : more.taken = _ ∧ more.taken.length = m := ih
    constructor
    · rw [taken, hrest, List.take_succ_cons, List.map_cons]
    · rw [taken, List.length_cons, hm]

theorem read_le (d : Dialect) (depth : Nat) (ts : List Token) :
    (read d depth ts).2 ≤ ts.length := by
  obtain ⟨htexts, hcount⟩ := taken_read d depth ts
  rw [htexts, List.length_map, List.length_take] at hcount
  omega

theorem getLast?_taken {a : Arguments} (h : a.isClosed) : a.taken.getLast? = some ")" := by
  induction a with
  | done closed =>
    have hclosed : closed = true := h
    rw [taken, if_pos hclosed]
    rfl
  | word text rest ih => simp [taken, List.getLast?_cons, ih h]
  | call name inner rest _ ih => simp [taken, List.getLast?_cons, List.getLast?_append, ih h]

/-- Behind arguments that no parenthesis closes there is nothing, or a token at which they end. -/
theorem stops_of_read (d : Dialect) (depth : Nat) (ts : List Token)
    (h : (read d depth ts).1.isClosed = false) :
    ∀ t ∈ (ts.drop (read d depth ts).2).head?, t.text ∈ stops := by
  fun_induction read d depth ts with
  | case1 => simp
  | case2 depth t rest hstop =>
    have htext : t.text = ";" ∨ t.text = "\x7b" ∨ t.text = "\x7d" := by
      simpa [Token.is] using hstop.2
    simpa [stops] using htext
  | case3 => cases h
  | case4 depth t rest hstop hclose inner hcall arguments n harguments more m hmore ih ih' =>
    rw [hmore] at ih'
    have hrest := ih' h
    rw [List.drop_drop] at hrest
    show ∀ u ∈ ((t :: rest).drop (n + m + 2)).head?, u.text ∈ stops
    rw [List.drop_succ_cons, show n + m + 1 = n + 1 + m by omega]
    exact hrest
  | case5 depth t rest hstop hclose inner hcall more m hmore ih =>
    rw [hmore] at ih
    exact ih h

theorem parted_read (d : Dialect) (depth depth' : Nat) (ts : List Token) :
    Parted (read d depth ts).1.taken (read d depth' (ts.drop (read d depth ts).2)).1.taken := by
  cases h : (read d depth ts).1.isClosed with
  | true => exact .inl (getLast?_taken h)
  | false =>
    right
    intro y hy
    rw [(taken_read d depth' _).1, List.head?_map] at hy
    obtain ⟨t, ht, rfl⟩ := Option.map_eq_some_iff.1 hy
    rw [List.head?_take] at ht
    split at ht
    · cases ht
    · exact stops_of_read d depth ts h t ht

theorem orderly_read (d : Dialect) (depth : Nat) (ts : List Token) :
    (read d depth ts).1.Orderly := by
  fun_induction read d depth ts with
  | case1 => trivial
  | case2 => trivial
  | case3 => trivial
  | case4 depth t rest hstop hclose inner hcall arguments n harguments more m hmore ih ih' =>
    have hparted := parted_read d 0 inner rest.tail
    rw [harguments, List.drop_tail] at hparted
    rw [hmore] at hparted
    rw [harguments] at ih
    rw [hmore] at ih'
    exact ⟨hparted, ih, ih'⟩
  | case5 depth t rest hstop hclose inner hcall more m hmore ih =>
    rw [hmore] at ih
    exact ih

end Arguments

/-! ## The sites of a stream -/

/-- The name stands in the tokens before an opening parenthesis, and the arguments are the tokens
that are taken behind it. -/
def CallSite.StandsIn (d : Dialect) (ts : List Token) (site : CallSite) (a : Arguments) : Prop :=
  ∃ front paren rest, ts = front ++ site.name :: paren :: rest ∧ paren.is "(" ∧
    Arguments.read d 0 rest = (a, site.arguments.length) ∧ site.arguments <+: rest

/-- The call was read at the site. -/
structure CallSite.Holds (d : Dialect) (ts : List Token) (c : String × Arguments)
    (site : CallSite) : Prop where
  name : c.1 = site.name.text
  stands : site.StandsIn d ts c.2

namespace CallSite.Holds

variable {d : Dialect} {ts ts' : List Token} {c : String × Arguments} {site : CallSite}

theorem mono (h : site.Holds d ts c) (hts : ts <:+ ts') : site.Holds d ts' c := by
  obtain ⟨before, rfl⟩ := hts
  obtain ⟨front, paren, rest, rfl, hplace⟩ := h.stands
  exact ⟨h.name, before ++ front, paren, rest, (List.append_assoc ..).symm, hplace⟩

theorem taken (h : site.Holds d ts c) : c.2.taken = site.arguments.map (·.text) := by
  obtain ⟨front, paren, rest, -, -, hread, hprefix⟩ := h.stands
  have htaken := (Arguments.taken_read d 0 rest).1
  rw [hread, ← List.prefix_iff_eq_take.1 hprefix] at htaken
  exact htaken

theorem orderly (h : site.Holds d ts c) : c.2.Orderly := by
  obtain ⟨front, paren, rest, -, -, hread, -⟩ := h.stands
  have horderly := Arguments.orderly_read d 0 rest
  rw [hread] at horderly
  exact horderly

theorem mem_of_mem_arguments (h : site.Holds d ts c) {t : Token} (ht : t ∈ site.arguments) :
    t ∈ ts := by
  obtain ⟨front, paren, rest, rfl, -, -, hprefix⟩ := h.stands
  have hrest := hprefix.subset ht
  simp [hrest]

end CallSite.Holds

namespace Arguments

variable {d : Dialect} {t paren : Token} {rest : List Token}

theorem holds_call (hparen : paren.is "(") :
    CallSite.Holds d (t :: paren :: rest) (t.text, (read d 0 rest).1)
      ⟨t, rest.take (read d 0 rest).1.taken.length⟩ := by
  refine ⟨rfl, [], paren, rest, rfl, hparen, ?_, List.take_prefix _ _⟩
  have hcount := (taken_read d 0 rest).2
  have hle := read_le d 0 rest
  rw [hcount, List.length_take, Nat.min_eq_left hle]

/-- Each call among arguments that are read was read at its site. -/
theorem forall₂_sites (d : Dialect) (depth : Nat) (ts : List Token) :
    List.Forall₂ (CallSite.Holds d ts) (read d depth ts).1.calls
      ((read d depth ts).1.sites ts) := by
  fun_induction read d depth ts with
  | case1 => exact .nil
  | case2 => exact .nil
  | case3 => exact .nil
  | case4 depth t rest hstop hclose inner hcall arguments n harguments more m hmore ih ih' =>
    cases rest with
    | nil => cases (Bool.and_eq_true_iff.1 hcall).2
    | cons paren rest =>
      have hsite : CallSite.Holds d (t :: paren :: rest) (t.text, (read d 0 rest).1) _ :=
        holds_call (Bool.and_eq_true_iff.1 hcall).2
      have hcount := (taken_read d 0 rest).2
      rw [List.tail_cons] at harguments ih
      rw [harguments] at hsite hcount ih
      rw [List.drop_succ_cons] at hmore ih'
      rw [hmore] at ih'
      have hn : arguments.taken.length = n := hcount
      have hrest : rest <:+ t :: paren :: rest := List.suffix_append [t, paren] rest
      have hdrop : rest.drop n <:+ t :: paren :: rest := (List.drop_suffix n rest).trans hrest
      rw [calls, sites]
      refine .cons hsite (List.rel_append (ih.imp ?_) ?_)
      · intro c site h
        exact h.mono hrest
      · rw [hn]
        exact ih'.imp fun c site h => h.mono hdrop
  | case5 depth t rest hstop hclose inner hcall more m hmore ih =>
    rw [hmore] at ih
    exact ih.imp fun c site h => h.mono (List.suffix_cons t rest)

end Arguments

namespace Construct

/-- The calls of a construct, each before those in its arguments. -/
def calls : Construct → List (String × Arguments)
  | call name arguments => (name, arguments) :: arguments.calls
  | _ => []

/-- The sites of the calls of a construct that begins with the first of these tokens. -/
def sites : Construct → List Token → List CallSite
  | call name arguments, ts => (Arguments.call name arguments (.done true)).sites ts
  | _, _ => []

/-- The sites of a stream of tokens, `previous` standing before it. -/
def callSites (d : Dialect) (previous : Option Token) : List Token → List CallSite
  | [] => []
  | t :: rest =>
    let (construct, n) := read d previous t rest
    construct.sites (t :: rest) ++ callSites d ((t :: rest.take n).getLast?) (rest.drop n)
termination_by ts => ts.length

variable {d : Dialect} {previous : Option Token} {t : Token} {rest : List Token}

theorem calls_function (typeName name : String) (ts : List Token) :
    (function typeName name ts).calls = [] := by
  unfold function
  split <;> rfl

theorem calls_declarator (typeName : String) (ts : List Token) :
    (declarator typeName ts).1.calls = [] := by
  unfold declarator
  split
  · rfl
  · split
    · exact calls_function ..
    · split
      · rfl
      · split
        · dsimp only
          split
          · split
            · split
              · exact calls_function ..
              · rfl
            · rfl
          · rfl
        · split <;> rfl

theorem calls_keyword (g : Grammar) (text : String) (action : KeywordAction) :
    (keyword g previous text rest action).1.calls = [] := by
  cases action with
  | typeDeclaration => exact calls_declarator ..
  | newInstance =>
    unfold keyword
    dsimp only
    split
    · split <;> rfl
    · rfl
  | _ => rfl

theorem sites_of_calls_eq_nil {c : Construct} (h : c.calls = []) (ts : List Token) :
    c.sites ts = [] := by
  cases c with
  | call => cases h
  | _ => rfl

theorem forall₂_nil {c : Construct} (h : c.calls = []) (ts : List Token) :
    List.Forall₂ (CallSite.Holds d ts) c.calls (c.sites ts) := by
  rw [h, sites_of_calls_eq_nil h]
  exact .nil

theorem forall₂_callSite (hparen : nextIs rest "(") :
    List.Forall₂ (CallSite.Holds d (t :: rest))
      (callSite d previous t.text rest).1.calls
      ((callSite d previous t.text rest).1.sites (t :: rest)) := by
  unfold callSite
  split
  · exact .nil
  · split
    · exact .nil
    · split
      · exact .nil
      · cases rest with
        | nil => cases hparen
        | cons paren rest =>
          have hinner := Arguments.forall₂_sites d 0 rest
          have hrest : rest <:+ t :: paren :: rest := List.suffix_append [t, paren] rest
          show List.Forall₂ _ (_ :: _) (_ :: (_ ++ []))
          rw [List.append_nil]
          exact .cons (Arguments.holds_call hparen) (hinner.imp fun c site h => h.mono hrest)

theorem forall₂_plain :
    List.Forall₂ (CallSite.Holds d (t :: rest))
      (plain d previous t rest).1.calls ((plain d previous t rest).1.sites (t :: rest)) := by
  unfold plain
  split
  · exact .nil
  · split
    · next h => exact forall₂_callSite (Bool.and_eq_true_iff.1 h).2
    · split <;> exact .nil

/-- Each call of the construct that is read was read at its site. -/
theorem forall₂_sites (d : Dialect) (previous : Option Token) (t : Token) (rest : List Token) :
    List.Forall₂ (CallSite.Holds d (t :: rest))
      (read d previous t rest).1.calls ((read d previous t rest).1.sites (t :: rest)) := by
  unfold read
  split
  · split
    · exact forall₂_nil (calls_keyword ..) _
    · exact forall₂_plain
  · exact .nil
  · exact forall₂_plain

/-- Each call of the constructs of a stream was read at its site. -/
theorem forall₂_callSites (d : Dialect) (previous : Option Token) (ts : List Token) :
    List.Forall₂ (CallSite.Holds d ts) ((list d previous ts).flatMap calls)
      (callSites d previous ts) := by
  fun_induction list d previous ts with
  | case1 =>
    rw [callSites]
    exact .nil
  | case2 previous t rest construct n hread ih =>
    have hfirst := forall₂_sites d previous t rest
    rw [hread] at hfirst
    have hdrop : rest.drop n <:+ t :: rest :=
      (List.drop_suffix n rest).trans (List.suffix_cons t rest)
    rw [List.flatMap_cons, callSites, hread]
    exact List.rel_append hfirst (ih.imp fun c site h => h.mono hdrop)

end Construct

end GrowthOrder
