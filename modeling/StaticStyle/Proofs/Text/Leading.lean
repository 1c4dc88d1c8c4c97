import StaticStyle.Text.Basic

namespace StaticStyle.Text

theorem dropLeading?_eq {leading text rest : Text} (found : dropLeading? leading text = some rest) :
    text = leading ++ rest := by
  fun_induction dropLeading? leading text with
  | case1 text => simpa using found
  | case2 => simp at found
  | case3 leading _ text ih => rw [ih found, List.cons_append]
  | case4 => simp at found

theorem dropLeading?_append (leading rest : Text) : dropLeading? leading (leading ++ rest) = some rest := by
  induction leading with
  | nil => cases rest <;> rfl
  | cons c leading ih => simp [dropLeading?, ih]

end StaticStyle.Text
