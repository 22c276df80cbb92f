/-!
# The list library

Functions on lists, written in the language itself.
-/

namespace SourceMachine.Prelude

/-- The text of the list library. -/
def lists : String := "
function equal(xs, ys) \x7b
    return is_pair(xs)
        ? is_pair(ys) && equal(head(xs), head(ys)) && equal(tail(xs), tail(ys))
        : xs === ys;
\x7d

function length(xs) \x7b
    return is_null(xs) ? 0 : 1 + length(tail(xs));
\x7d

function map(f, xs) \x7b
    return is_null(xs) ? null : pair(f(head(xs)), map(f, tail(xs)));
\x7d

function build_list(fun, n) \x7b
    function build(i) \x7b
        return i >= n ? null : pair(fun(i), build(i + 1));
    \x7d
    return build(0);
\x7d

function for_each(fun, xs) \x7b
    if (is_null(xs)) \x7b
        return true;
    \x7d else \x7b
        fun(head(xs));
        return for_each(fun, tail(xs));
    \x7d
\x7d

function list_to_string(xs) \x7b
    return stringify(xs);
\x7d

function reverse(xs) \x7b
    function rev(original, reversed) \x7b
        return is_null(original)
            ? reversed
            : rev(tail(original), pair(head(original), reversed));
    \x7d
    return rev(xs, null);
\x7d

function append(xs, ys) \x7b
    return is_null(xs) ? ys : pair(head(xs), append(tail(xs), ys));
\x7d

function member(v, xs) \x7b
    return is_null(xs)
        ? null
        : v === head(xs)
        ? xs
        : member(v, tail(xs));
\x7d

function remove(v, xs) \x7b
    return is_null(xs)
        ? null
        : v === head(xs)
        ? tail(xs)
        : pair(head(xs), remove(v, tail(xs)));
\x7d

function remove_all(v, xs) \x7b
    return is_null(xs)
        ? null
        : v === head(xs)
        ? remove_all(v, tail(xs))
        : pair(head(xs), remove_all(v, tail(xs)));
\x7d

function filter(pred, xs) \x7b
    return is_null(xs)
        ? null
        : pred(head(xs))
        ? pair(head(xs), filter(pred, tail(xs)))
        : filter(pred, tail(xs));
\x7d

function enum_list(start, end) \x7b
    return start > end ? null : pair(start, enum_list(start + 1, end));
\x7d

function list_ref(xs, n) \x7b
    return n === 0 ? head(xs) : list_ref(tail(xs), n - 1);
\x7d

function accumulate(f, initial, xs) \x7b
    return is_null(xs) ? initial : f(head(xs), accumulate(f, initial, tail(xs)));
\x7d
"

end SourceMachine.Prelude
