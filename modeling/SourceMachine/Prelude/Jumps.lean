/-!
# The library of jumps

Loops that can be left, exceptions, backtracking search, threads and generators,
written in the language itself with the operators that capture the stack.  It uses
the list library.
-/

namespace SourceMachine.Prelude

/-- The text of the library of jumps. -/
def jumps : String := "
function loop(f) \x7b
    let step = false;

    call_cc(brake => \x7b
        call_cc(kontinue => \x7b
            f(brake, kontinue);
        \x7d);
        step = true;
    \x7d);

    return step ? loop(f) : null;
\x7d

function try_no_c(body) \x7b
    call_cc(resume => \x7b
        const exception = call_cc(thrw => \x7b
            const res = body(thrw);
            resume(res);
        \x7d);

        resume(exception);
    \x7d);
\x7d

function tryc(body, ctch) \x7b
    call_cc(resume => \x7b
        const exception = call_cc(thrw => \x7b
            const res = body(thrw);
            resume(res);
        \x7d);

        resume(ctch(exception));
    \x7d);
\x7d

function logic(body) \x7b
    let fail_stack = null;

    function fail() \x7b
        if (!is_pair(fail_stack)) \x7b
            shift(k => false);
        \x7d else \x7b
            let back_track_point = head(fail_stack);
            fail_stack = tail(fail_stack);
            back_track_point(back_track_point);
        \x7d
    \x7d

    function amb(choices) \x7b
        let cc = call_cc(k => k);
        if (is_null(choices)) \x7b
            fail();
        \x7d else \x7b
            let choice = head(choices);
            choices = tail(choices);
            fail_stack = pair(cc, fail_stack);
            return choice;
        \x7d
    \x7d

    function assert(condition) \x7b
        return condition() ? true : fail();
    \x7d

    return reset(() => body(amb, assert));
\x7d

function threads(body) \x7b
    let thread_queue = null;
    let halt = null;

    function spawn(proc) \x7b
        let cc = call_cc(k => k);
        if (is_cont(cc)) \x7b
            thread_queue = append(thread_queue, list(cc));
        \x7d else \x7b
            proc();
            quit();
        \x7d
    \x7d

    function yld() \x7b
        let cc = call_cc(k => k);
        if (is_cont(cc) && !is_null(thread_queue)) \x7b
            let next_thread = head(thread_queue);
            thread_queue = append(tail(thread_queue), list(cc));
            next_thread(null);
        \x7d
    \x7d

    function quit() \x7b
        if (!is_null(thread_queue)) \x7b
            let next_thread = head(thread_queue);
            thread_queue = tail(thread_queue);
            next_thread(null);
        \x7d else \x7b
            halt();
        \x7d
    \x7d

    function start_threads() \x7b
        let cc = call_cc(k => k);
        if (is_cont(cc)) \x7b
            halt = () => cc(false);
            if (!is_null(thread_queue)) \x7b
                let next_thread = head(thread_queue);
                thread_queue = tail(thread_queue);
                next_thread(null);
            \x7d
        \x7d
    \x7d

    return body(spawn, start_threads, yld);
\x7d

function make_generator(data, walk) \x7b
    let cc = null;

    function yld(val) \x7b
        shift(k => \x7b
            cc = k;
            return val;
        \x7d);
    \x7d

    function it() \x7b
        return reset(() => !is_cont(cc) ? walk(yld, data) : cc(null));
    \x7d

    return it;
\x7d
"

end SourceMachine.Prelude
